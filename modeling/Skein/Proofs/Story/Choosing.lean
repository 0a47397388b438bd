import Skein.Proofs.Story.HostWrites
import Skein.Proofs.Story.Offers
import Skein.Proofs.Story.Pacing

set_option autoImplicit false

/-!
# Story: making a choice

A choice on offer remembers the frames and the scopes that there were when its block was come to,
past the block.  Much may run between that and the moment when it is made: other entries of the
block are rendered, a thread gives way to the flow that spawned it, lines are read, variables are
written, and calls fail.  None of it changes what the choice remembers, since choices on offer are
only ever added or dropped.  So for every choice on offer there is the state in which its block came
next, and a run from there on.
-/

namespace Skein

open Contract Outcome

namespace Store

theorem scopes_withScopes {scopes : List Scope} (h : scopes ≠ []) (s : Store) :
    (s.withScopes scopes).scopes = scopes := by
  cases scopes with
  | nil => exact absurd rfl h
  | cons scope outer => rfl

theorem withScopes_eq (s : Store) (scopes : List Scope) :
    s.withScopes scopes =
      { s with
        scope := (s.withScopes scopes).scope
        enclosing := (s.withScopes scopes).enclosing } := by
  cases scopes with
  | nil => rfl
  | cons scope outer => rfl

end Store

/-! ## What making a choice changes -/

namespace State

/-- Making a choice changes the flow, the record of choices, the turn and the output. -/
theorem choose_eq (s : State) (choice : PendingChoice) :
    s.choose choice =
      { s with
        frames := (Stack.ofList (choice.resume.map (·.1))).mapTop (·.pushContent choice.result)
        store := s.store.withScopes (choice.resume.map (·.2))
        visits := s.visits.mapValues fun v => { v with turnsSince := v.turnsSince + 1 }
        taken := (s.markTaken choice.knot choice.block choice.entry).taken
        choices := []
        status := .running
        turn := s.turn + 1
        output := (s.echo choice).output } := by
  unfold choose takeChoice echo markTaken
  split
  · split <;> rfl
  · split <;> rfl

theorem choices_choose (s : State) (choice : PendingChoice) : (s.choose choice).choices = [] := by
  rw [choose_eq]

end State

namespace Story

variable {story : Story}

theorem chooseIndex_of_shown {s : State} {index : Nat} {choice : PendingChoice}
    (hstatus : s.status = .atChoice) (hchoice : s.visibleChoices[index]? = some choice) :
    chooseIndex index s = .ok () (s.choose choice) := by
  unfold Story.chooseIndex
  refine (run_of_eq_ok (rfl : (get : Flow State) s = .ok s s)).trans ?_
  rw [hchoice]
  dsimp only
  rw [if_pos hstatus]
  rfl

theorem chooseIndex_of_not_shown {s : State} {index : Nat}
    (h : ¬(s.status = .atChoice ∧ index < s.visibleChoices.length)) :
    chooseIndex index s = .error (.invalidChoice index s.visibleChoices.length) s := by
  unfold Story.chooseIndex
  refine (run_of_eq_ok (rfl : (get : Flow State) s = .ok s s)).trans ?_
  cases hchoice : s.visibleChoices[index]? with
  | none => rfl
  | some choice =>
      have hstatus : s.status ≠ .atChoice :=
        fun hat => h ⟨hat, (List.getElem?_eq_some_iff.mp hchoice).1⟩
      dsimp only
      rw [if_neg hstatus]
      rfl

/-- A choice is made exactly where there is one to be made at that place. -/
theorem chooseIndex_eq_ok_iff {s t : State} {index : Nat} :
    chooseIndex index s = .ok () t ↔
      s.status = .atChoice ∧
        ∃ choice, s.visibleChoices[index]? = some choice ∧ t = s.choose choice := by
  constructor
  · intro hrun
    by_cases hshown : s.status = .atChoice ∧ index < s.visibleChoices.length
    · have hchoice := List.getElem?_eq_getElem hshown.2
      rw [chooseIndex_of_shown hshown.1 hchoice] at hrun
      cases hrun
      exact ⟨hshown.1, _, hchoice, rfl⟩
    · rw [chooseIndex_of_not_shown hshown] at hrun
      cases hrun
  · rintro ⟨hstatus, choice, hchoice, rfl⟩
    exact chooseIndex_of_shown hstatus hchoice

theorem gaining_chooseIndex {may : PendingChoice → Prop} (index : Nat) :
    (gaining may).Holds (chooseIndex index) := by
  refine ⟨fun s => ?_⟩
  by_cases hshown : s.status = .atChoice ∧ index < s.visibleChoices.length
  · rw [chooseIndex_of_shown hshown.1 (List.getElem?_eq_getElem hshown.2)]
    exact State.gains_of_eq_nil (State.choices_choose _ _)
  · rw [chooseIndex_of_not_shown hshown]
    exact State.gains_of_eq rfl

/-! ## Where choices come from -/

/-- A run from a state: calls of the host and steps in the course of them, done or failed, and the
line that is taken where such a call comes to its end. -/
inductive Continues (story : Story) (s : State) : State → Prop where
  | refl : Continues story s s
  | next {t u : State} : Continues story s t → story.Advances t u → Continues story s u
  | line {t : State} : Continues story s t → t.awaits = false → Continues story s t.takeLine

/-- A choice was offered in a step of the run that came to a state: it is of the block that came
next, with the frames and the scopes of that time. -/
def Remembered (story : Story) (choice : PendingChoice) (s : State) : Prop :=
  ∃ u t, story.Attainable u ∧ u.Poses choice ∧ choice ∈ t.choices ∧ story.Continues t s ∧
    ∃ halt, (story.step (story.watchedFunction halt story.config.callDepth)).Leaves u t

/-- Every choice on offer was offered on the way. -/
def Remembers (story : Story) (s : State) : Prop := ∀ choice ∈ s.choices, story.Remembered choice s

theorem Remembered.next {choice : PendingChoice} {s t : State} (h : story.Remembered choice s)
    (hadvances : story.Advances s t) : story.Remembered choice t := by
  obtain ⟨u, v, hattained, hposes, hmem, hcontinues, hstep⟩ := h
  exact ⟨u, v, hattained, hposes, hmem, hcontinues.next hadvances, hstep⟩

theorem Remembered.line {choice : PendingChoice} {s : State} (h : story.Remembered choice s)
    (hawaits : s.awaits = false) : story.Remembered choice s.takeLine := by
  obtain ⟨u, v, hattained, hposes, hmem, hcontinues, hstep⟩ := h
  exact ⟨u, v, hattained, hposes, hmem, hcontinues.line hawaits, hstep⟩

theorem Remembers.step {s t : State} {halt : State → Bool} (h : story.Remembers s)
    (hs : story.Attainable s)
    (hstep : (story.step (story.watchedFunction halt story.config.callDepth)).Leaves s t) :
    story.Remembers t := by
  intro choice hchoice
  have hc (may : PendingChoice → Prop) :
      story.Honours (story.watchedFunction halt story.config.callDepth) (gaining may) :=
    honours_gaining (story.gaining_watchedFunction halt story.config.callDepth may)
  have hgains : s.Gains s.Poses t := hstep.ensured (gaining_step hc s)
  rcases hgains choice hchoice with hold | hnew
  · exact (h choice hold).next (.step halt hstep)
  · exact ⟨s, t, hs, hnew, hchoice, .refl, halt, hstep⟩

/-- What adds no choice leaves those that were offered on the way. -/
theorem Remembers.call {s t : State} {call : HostCall} (h : story.Remembers s)
    (hleaves : (story.serve call).Leaves s t) (hnone : s.Gains (fun _ => False) t) :
    story.Remembers t := by
  intro choice hchoice
  rcases hnone choice hchoice with hold | hnew
  · exact (h choice hold).next (.call call hleaves)
  · exact hnew.elim

theorem Remembers.ensures_continueLine {s : State} (h : story.Remembers s)
    (hs : story.Attainable s) :
    Ensures (fun _ t => story.Remembers t) (fun _ t => story.Remembers t)
      (story.continueLine s) := by
  unfold Story.continueLine Story.lineBy
  refine ensures_get ?_
  split
  · refine Ensures.bind ((Flow.ensures_repeatWhile
      (fun t => story.Attainable t ∧ story.Remembers t) ?_ ?_ _ ⟨hs, h⟩).mono ?_ fun _ _ ht => ht)
    · intro t ht _
      exact ht.2
    · rintro t ⟨ht, hremembers⟩ _
      have hkeeps (u : State) (hu : (story.step story.callFunction).Leaves t u) :
          story.Attainable u ∧ story.Remembers u := by
        rw [callFunction, ← watchedFunction_never] at hu
        exact ⟨ht.next (.step _ hu), hremembers.step ht hu⟩
      exact (Flow.ensures_of_leaves hkeeps).mono (fun _ _ hu => hu) fun _ _ hu => hu.2
    · rintro _ t ⟨⟨_, ht⟩, hawaits⟩ choice hchoice
      exact (ht choice hchoice).line hawaits
  · exact h

theorem leaves_continueLine {s t : State} (h : story.continueLine.Leaves s t) :
    (story.serve (.ask .continueLine)).Leaves s t := by
  rcases h with ⟨line, hrun⟩ | ⟨fault, hrun⟩
  · exact .inl ⟨(), run_of_eq_ok hrun⟩
  · exact .inr ⟨fault, run_of_eq_error hrun⟩

theorem Remembers.ensures_readLines {s : State} (h : story.Remembers s) (hs : story.Attainable s)
    (read : List String) (bound : Nat) :
    Ensures (fun _ t => story.Remembers t) (fun _ t => story.Remembers t)
      (readLinesBy story.continueLine read bound s) := by
  induction bound generalizing s read with
  | zero =>
      refine ensures_get ?_
      split
      · exact h
      · exact h
  | succ bound ih =>
      refine ensures_get ?_
      split
      · have hattained (t : State) (ht : story.continueLine.Leaves s t) : story.Attainable t :=
          hs.next (.call _ (leaves_continueLine ht))
        have hboth := (Flow.ensures_of_leaves hattained).and (h.ensures_continueLine hs)
        refine Ensures.bind (hboth.mono ?_ fun _ _ ht => ht.2)
        rintro line t ⟨ht, hremembers⟩
        exact ih hremembers ht _
      · exact h

theorem Remembers.serve {s t : State} {call : HostCall} (h : story.Remembers s)
    (hs : story.Attainable s) (hleaves : (story.serve call).Leaves s t) : story.Remembers t := by
  have hnone (hserve : (gaining fun _ => False).Holds (story.serve call)) : story.Remembers t :=
    h.call hleaves (hleaves.ensured (hserve.allows s))
  cases call with
  | unobserveAll _ | unobserveEverywhere _ | unobserve _ _ =>
      exact hnone ⟨fun _ => State.gains_of_eq rfl⟩
  | ask request =>
      cases request with
      | continueLine =>
          refine hleaves.ensured (Ensures.bind ?_)
          exact (h.ensures_continueLine hs).mono (fun _ _ ht => ht) fun _ _ ht => ht
      | continueMaximally bound =>
          refine hleaves.ensured (Ensures.bind (Ensures.bind ?_))
          exact (h.ensures_readLines hs [] bound).mono (fun _ _ ht => ht) fun _ _ ht => ht
      | choose index => exact hnone (gaining_chooseIndex index)
      | choosePath path => exact hnone (story.gaining_startAt path)
      | setVariable name value => exact hnone (gaining_setVariable name value)
      | observe _ | bind _ _ => exact hnone ⟨fun _ => State.gains_of_eq rfl⟩

/-- At the start nothing is on offer. -/
theorem choices_of_start {s : State} (h : story.start = .ok s) : s.choices = [] := by
  unfold Story.start at h
  split at h
  · next answer t hload =>
      cases h
      obtain ⟨_, declared, hdeclare, hentry⟩ := of_run_eq_ok hload
      have hdeclared := story.chronicled_declareAll.allows (.ofSeed story.config.seed)
      rw [hdeclare] at hdeclared
      have hnone : declared.choices = [] := hdeclared.1.1.choices
      cases hpath : story.entryPoint? with
      | none =>
          rw [hpath] at hentry
          cases hentry
      | some path =>
          rw [hpath] at hentry
          dsimp only at hentry
          have hgains : (gaining fun _ => False).Holds (story.startAt path) :=
            story.gaining_startAt path
          have hstart := hgains.allows declared
          rw [hentry] at hstart
          refine List.eq_nil_iff_forall_not_mem.mpr fun choice hchoice => ?_
          rcases hstart choice hchoice with hold | hnew
          · rw [hnone] at hold
            cases hold
          · exact hnew
  · cases h

theorem Attainable.remembers {s : State} (h : story.Attainable s) : story.Remembers s := by
  induction h with
  | start hstart =>
      intro choice hchoice
      rw [choices_of_start hstart] at hchoice
      cases hchoice
  | next hs hadvances ih =>
      cases hadvances with
      | call call hleaves => exact ih.serve hs hleaves
      | step halt hleaves => exact ih.step hs hleaves

/-! ## Making a choice -/

/-- The place among those shown and the place among all: there are as many shown before it. -/
theorem exists_of_visibleChoices {s : State} {index : Nat} {choice : PendingChoice}
    (h : s.visibleChoices[index]? = some choice) :
    ∃ before after, s.choices = before ++ choice :: after ∧ choice.fallback = false ∧
      (before.filter (!·.fallback)).length = index := by
  obtain ⟨hlt, hget⟩ := List.getElem?_eq_some_iff.mp h
  have hsplit : s.choices.filter (!·.fallback) =
      s.visibleChoices.take index ++ choice :: s.visibleChoices.drop (index + 1) := by
    rw [← hget, List.getElem_cons_drop, List.take_append_drop]
    rfl
  obtain ⟨front, back, hchoices, hfront, hback⟩ := List.filter_eq_append_iff.mp hsplit
  obtain ⟨hidden, after, rfl, hhidden, hshown, _⟩ := List.filter_eq_cons_iff.mp hback
  refine ⟨front ++ hidden, after, by rw [hchoices, List.append_assoc], by simpa using hshown, ?_⟩
  rw [List.filter_append, hfront, List.filter_eq_nil_iff.mpr hhidden, List.append_nil,
    List.length_take, Nat.min_eq_left (Nat.le_of_lt hlt)]

/-- In every state that a story can come to, a choice can be made exactly if the story is at a
choice and one is shown at that place; otherwise the request fails with the number of those shown,
and nothing changes.  The choice that is made is the one that is shown there, wherever it stands
among all that are on offer.  It is marked as made and no other is.  The flow goes on with what the
choice remembers, and its result comes first: the frames and the scopes are those of the time when
its block was come to, whatever ran since.  A turn is completed, nothing is left on offer, and
besides its text in the output nothing else changes. -/
theorem choice_of_attainable {s : State} (h : story.Attainable s) (index : Nat) :
    ((∃ t, chooseIndex index s = .ok () t) ↔
      s.status = .atChoice ∧ index < s.visibleChoices.length) ∧
    (∀ fault t, chooseIndex index s = .error fault t →
      fault = .invalidChoice index s.visibleChoices.length ∧ t = s) ∧
    ∀ t, chooseIndex index s = .ok () t →
      ∃ choice before after, s.visibleChoices[index]? = some choice ∧
        (s.choices = before ++ choice :: after ∧ choice.fallback = false ∧
          (before.filter (!·.fallback)).length = index) ∧
        (∀ key, key ∈ t.taken ↔ key = choice.key ∨ key ∈ s.taken) ∧
        t.frames.items = (choice.resume.map (·.1)).modifyHead (·.pushContent choice.result) ∧
        t.store.scopes = choice.resume.map (·.2) ∧
        story.Remembered choice s ∧
        t = { s with
          frames := t.frames
          store := { s.store with scope := t.store.scope, enclosing := t.store.enclosing }
          visits := s.visits.mapValues fun v => { v with turnsSince := v.turnsSince + 1 }
          taken := t.taken
          choices := []
          status := .running
          turn := s.turn + 1
          output := (s.echo choice).output } := by
  refine ⟨⟨?_, ?_⟩, ?_, ?_⟩
  · rintro ⟨t, hrun⟩
    obtain ⟨hstatus, choice, hchoice, _⟩ := chooseIndex_eq_ok_iff.mp hrun
    exact ⟨hstatus, (List.getElem?_eq_some_iff.mp hchoice).1⟩
  · rintro ⟨hstatus, hlt⟩
    exact ⟨_, chooseIndex_of_shown hstatus (List.getElem?_eq_getElem hlt)⟩
  · intro fault t hfails
    by_cases hshown : s.status = .atChoice ∧ index < s.visibleChoices.length
    · rw [chooseIndex_of_shown hshown.1 (List.getElem?_eq_getElem hshown.2)] at hfails
      cases hfails
    · rw [chooseIndex_of_not_shown hshown] at hfails
      cases hfails
      exact ⟨rfl, rfl⟩
  · intro t hrun
    obtain ⟨_, choice, hchoice, rfl⟩ := chooseIndex_eq_ok_iff.mp hrun
    obtain ⟨before, after, hchoices, hshown, hplace⟩ := exists_of_visibleChoices hchoice
    have hmem : choice ∈ s.choices := by
      rw [hchoices]
      exact List.mem_append_right _ List.mem_cons_self
    have htaken (key : Taken) :
        key ∈ (s.choose choice).taken ↔ key = choice.key ∨ key ∈ s.taken := by
      rw [(still_fallBack_choose s choice).taken]
      exact (s.record_fallBack choice).2 key
    have hresume : choice.resume.map (·.2) ≠ [] := by
      have hresumable := h.cleared.choices choice hmem
      intro hnil
      rw [PendingChoice.kinds, List.map_eq_nil_iff.mp hnil] at hresumable
      cases hresumable
    refine ⟨choice, before, after, hchoice, ⟨hchoices, hshown, hplace⟩, htaken, ?_, ?_,
      h.remembers choice hmem, ?_⟩
    · rw [State.choose_eq]
      rfl
    · rw [State.choose_eq]
      exact Store.scopes_withScopes hresume s.store
    · rw [State.choose_eq]
      dsimp only
      rw [← Store.withScopes_eq]

/-- A story whose thread asks for a fare and offers two choices, one of them a fallback, before the
main flow offers another. -/
def ferry : Story where
  script :=
    { knots :=
        [{ name := "start", id := ⟨1⟩, parameters := []
           objects :=
             [.divert { kind := .thread, target := some "quay", args := [⟨"5", [.int 5], [0]⟩] },
               .choice ⟨3⟩ [⟨[.text "Wait"], [], false, [], false, false⟩]]
           stitches := [], gathers := [], isFunction := false },
         { name := "quay", id := ⟨2⟩, parameters := [⟨"fare", false⟩]
           objects :=
             [.choice ⟨4⟩
               [⟨[], [], false, [], true, false⟩,
                ⟨[.text "Board"], [.text "Aboard."], false, [], false, false⟩]]
           stitches := [], gathers := [], isFunction := false }]
      sound := rfl }

/-- The first choice shown is the second on offer.  It goes on in the thread, which is the main flow
then, and the fare is known again. -/
theorem choice_of_ferry :
    ∃ s t choice, ferry.Attainable s ∧ s.choices.length = 3 ∧ s.visibleChoices.length = 2 ∧
      s.store.temporary? "fare" = none ∧ chooseIndex 0 s = .ok () t ∧
      s.visibleChoices[0]? = some choice ∧ choice.key = ⟨⟨1⟩, ⟨4⟩, 1⟩ ∧
      ferry.Remembered choice s ∧ choice.key ∈ t.taken ∧ t.kinds = [.root] ∧
      t.store.temporary? "fare" = some (.int 5) ∧
      chooseIndex 2 s = .error (.invalidChoice 2 2) s := by
  have hrun : (ferry.start.toOption.map fun start =>
      let s := (ferry.serve (.ask .continueLine)).after start
      let t := (chooseIndex 0).after s
      decide (s.choices.length = 3 ∧ s.visibleChoices.length = 2 ∧
        s.store.temporary? "fare" = none ∧ (chooseIndex 0).answer? s = some () ∧
        s.visibleChoices[0]?.map PendingChoice.key = some ⟨⟨1⟩, ⟨4⟩, 1⟩ ∧
        t.kinds = [.root] ∧ t.store.temporary? "fare" = some (.int 5))) = some true := by
    decide +kernel
  obtain ⟨start, hstart, hstate⟩ := exists_start hrun
  obtain ⟨hall, hshown, hfare, hanswer, hkey, hkinds, hpaid⟩ := of_decide_eq_true hstate
  have hs := (Attainable.start hstart).next (.call (.ask .continueLine) (Flow.leaves_after _ _))
  obtain ⟨_, _, hmade⟩ := choice_of_attainable hs 0
  obtain ⟨hdone, hfails, _⟩ := choice_of_attainable hs 2
  have hchosen := Flow.of_answer?_eq_some hanswer
  obtain ⟨choice, _, _, hchoice, _, htaken, _, _, hremembered, _⟩ := hmade _ hchosen
  rw [hchoice] at hkey
  refine ⟨_, _, choice, hs, hall, hshown, hfare, hchosen, hchoice, Option.some.inj hkey,
    hremembered, (htaken _).mpr (.inl rfl), hkinds, hpaid, ?_⟩
  cases hthird : chooseIndex 2 ((ferry.serve (.ask .continueLine)).after start) with
  | ok _ t =>
      have hlt := (hdone.mp ⟨t, hthird⟩).2
      rw [hshown] at hlt
      omega
  | error fault t =>
      obtain ⟨rfl, rfl⟩ := hfails fault t hthird
      rw [hshown]

end Story

end Skein
