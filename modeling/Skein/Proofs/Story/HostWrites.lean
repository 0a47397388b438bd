import Skein.Proofs.Expr.Shadowing
import Skein.Proofs.Story.Visits

set_option autoImplicit false

/-!
# Story: what a write by the host changes

The host writes a global variable by its name, and the name is asked for among the globals.  The
write itself goes the way of every other write: through the aliases and then to the innermost
temporary.  In the middle of a knot with parameters it may so miss the global, which stays as it
was, and its observers are told nothing.

Between one flow and the next there are no temporaries and no aliases, and a write by the host
changes the global and nothing else.
-/

namespace Skein

/-! ## Where a write lands -/

/-- A write into some scopes goes to the first that has the temporary, and leaves the others. -/
theorem Enclosing.exists_of_writeIn? {name : String} {value : Value} {scopes scopes' : List Scope}
    (h : writeIn? name value scopes = some scopes') :
    ∃ inner scope outer, scopes = inner ++ scope :: outer ∧
      (∀ nearer ∈ inner, nearer.temporaries.get? name = none) ∧
      scope.temporaries.get? name ≠ none ∧
      scopes' =
        inner ++ { scope with temporaries := scope.temporaries.insert name value } :: outer := by
  induction scopes generalizing scopes' with
  | nil => cases h
  | cons first rest ih =>
      rw [writeIn?] at h
      cases hwrite : first.write? name value with
      | some written =>
          rw [hwrite] at h
          obtain rfl := Option.some.inj h
          refine ⟨[], first, rest, rfl, by simp, ?_, ?_⟩
          · intro hnone
            rw [Scope.write?_eq_none.mpr hnone] at hwrite
            cases hwrite
          · rw [Scope.temporaries_of_write? hwrite, List.nil_append]
      | none =>
          rw [hwrite] at h
          obtain ⟨rest', hrest, rfl⟩ := Option.map_eq_some_iff.mp h
          obtain ⟨inner, scope, outer, rfl, hinner, hhas, rfl⟩ := ih hrest
          refine ⟨first :: inner, scope, outer, rfl, ?_, hhas, rfl⟩
          intro nearer hnearer
          rcases List.mem_cons.mp hnearer with rfl | hnearer
          · exact Scope.write?_eq_none.mp hwrite
          · exact hinner nearer hnearer

namespace Store

/-- The innermost temporary of a name gets a value, and nothing else changes. -/
def SetsTemporary (s t : Store) (name : String) (value : Value) : Prop :=
  ∃ inner scope outer, s.scopes = inner ++ scope :: outer ∧
    (∀ nearer ∈ inner, nearer.temporaries.get? name = none) ∧
    scope.temporaries.get? name ≠ none ∧
    t = s.withScopes
      (inner ++ { scope with temporaries := scope.temporaries.insert name value } :: outer)

/-- The global of a name gets a value, its observers are told if that changes it, and nothing else
changes. -/
structure SetsGlobal (s t : Store) (name : String) (value : Value) : Prop where
  own : t.globals.get? name = some value
  others : ∀ other, other ≠ name → t.globals.get? other = s.globals.get? other
  told : t.notices = s.notices ++ if s.changes name value then s.noticesOf name value else []
  rest : t = { s with globals := t.globals, notices := t.notices }

/-- The global of a name stays as it is, and its observers are told nothing. -/
structure Misses (s t : Store) (name : String) : Prop where
  global : t.globals.get? name = s.globals.get? name
  told : ∃ told, t.notices = s.notices ++ told ∧ ∀ notice ∈ told, notice.name ≠ name

/-- A value is known to the list definitions: if it is a list, it passes their check. -/
def Knows (s : Store) (value : Value) : Prop :=
  ∀ l, value = .list l → s.registry.check l = .ok ()

variable {s t : Store} {name : String} {value : Value}

theorem temporary?_eq (s : Store) (name : String) :
    s.temporary? name = s.scopes.findSome? fun scope => scope.temporaries.get? name := by
  rw [temporary?, Enclosing.temporary?_eq, scopes, List.findSome?_cons]
  cases s.scope.temporaries.get? name with
  | none => rfl
  | some value => rfl

theorem setsGlobal_writeGlobal (s : Store) (name : String) (value : Value) :
    s.SetsGlobal (s.writeGlobal name value) name value where
  own := by rw [writeGlobal, Table.get?_insert, if_pos rfl]
  others other hother := by rw [writeGlobal, Table.get?_insert, if_neg (Ne.symm hother)]
  told := by
    rw [writeGlobal]
    split
    · rfl
    · rw [List.append_nil]
  rest := rfl

/-- Whatever is written lands in a temporary, or in a global if there is no temporary. -/
theorem sets_of_set (h : s.set name value = .ok t) :
    s.SetsTemporary t (s.canonical name) value ∨
      s.temporary? (s.canonical name) = none ∧ s.SetsGlobal t (s.canonical name) value := by
  cases hwrite : Enclosing.writeIn? (s.canonical name) value s.scopes with
  | some scopes =>
      obtain ⟨inner, scope, outer, hscopes, hinner, hhas, rfl⟩ :=
        Enclosing.exists_of_writeIn? hwrite
      exact .inl ⟨inner, scope, outer, hscopes, hinner, hhas, set_of_writeIn? h hwrite⟩
  | none =>
      have hnone : s.temporary? (s.canonical name) = none := by
        rw [temporary?_eq]
        exact Enclosing.writeIn?_eq_none.mp hwrite
      cases (lands_of_set h).2 with
      | temporary hsome => exact absurd hnone hsome
      | global _ => exact .inr ⟨hnone, setsGlobal_writeGlobal s _ value⟩

theorem SetsTemporary.misses (h : s.SetsTemporary t name value) (other : String) :
    s.Misses t other := by
  obtain ⟨inner, scope, outer, _, _, _, rfl⟩ := h
  have hsame (scopes : List Scope) :
      (s.withScopes scopes).globals = s.globals ∧ (s.withScopes scopes).notices = s.notices := by
    cases scopes with
    | nil => exact ⟨rfl, rfl⟩
    | cons first rest => exact ⟨rfl, rfl⟩
  refine ⟨by rw [(hsame _).1], [], ?_, by simp⟩
  rw [(hsame _).2, List.append_nil]

theorem SetsGlobal.misses (h : s.SetsGlobal t name value) {other : String} (hother : other ≠ name) :
    s.Misses t other := by
  refine ⟨h.others other hother, _, h.told, ?_⟩
  intro notice hnotice
  split at hnotice
  · obtain ⟨id, _, rfl⟩ := List.mem_map.mp hnotice
    exact Ne.symm hother
  · cases hnotice

/-- A write reaches the global of its name where nothing stands in front of it, and misses it
everywhere else. -/
theorem setsGlobal_or_misses (h : s.set name value = .ok t) :
    (s.canonical name = name ∧ s.temporary? name = none → s.SetsGlobal t name value) ∧
    (¬(s.canonical name = name ∧ s.temporary? name = none) → s.Misses t name) := by
  rcases sets_of_set h with htemporary | ⟨hnone, hglobal⟩
  · -- A temporary is written, and so there is one of the name that is written.
    refine ⟨?_, fun _ => htemporary.misses name⟩
    rintro ⟨hname, hnone⟩
    obtain ⟨inner, scope, outer, hscopes, _, hhas, _⟩ := htemporary
    rw [temporary?_eq, List.findSome?_eq_none_iff, hscopes] at hnone
    rw [hname] at hhas
    exact absurd (hnone scope (by simp)) hhas
  · refine ⟨fun hplain => hplain.1 ▸ hglobal, fun hhidden => hglobal.misses ?_⟩
    intro hname
    rw [← hname] at hnone
    exact hhidden ⟨hname.symm, hnone⟩

theorem canonical_of_alias?_eq_none (h : s.alias? name = none) : s.canonical name = name := by
  rw [canonical]
  cases s.aliases.length with
  | zero => rfl
  | succ bound => rw [follow, h]

/-- Where nothing is bound, a name stands for itself and no temporary has it. -/
theorem plain_of_shape (h : s.shape = [Scope.shape {}]) (name : String) :
    s.canonical name = name ∧ s.temporary? name = none := by
  rw [shape_eq] at h
  obtain ⟨hscope, houter⟩ := List.cons.inj h
  obtain ⟨hkeys, haliases⟩ := Prod.mk.inj hscope
  have hnone : s.enclosing.scopes = [] := List.map_eq_nil_iff.mp houter
  have hentries : s.scope.temporaries.entries = [] := List.map_eq_nil_iff.mp hkeys
  constructor
  · apply canonical_of_alias?_eq_none
    rw [alias?, Enclosing.alias?_eq, hnone, haliases]
    rfl
  · rw [temporary?, Enclosing.temporary?_eq, hnone, Table.get?, hentries]
    rfl

end Store

/-! ## Flows that leave nothing behind -/

namespace State

/-- Without a frame there are no temporaries and no aliases. -/
def Bare (s : State) : Prop := s.frames.items = [] → s.store.shape = [Scope.shape {}]

/-- The state is in line, and nothing is left of a flow that has ended. -/
structure Cleared (s : State) : Prop extends Aligned s where
  bare : s.Bare

theorem Active.bare {s : State} (h : s.Active) : s.Bare := fun hnil => absurd hnil h.nonempty

theorem Active.cleared {s : State} (h : s.Active) : s.Cleared := ⟨h.toAligned, h.bare⟩

theorem bare_clearFlow (s : State) : s.clearFlow.Bare := fun _ => rfl

theorem bare_rest {s : State}
    (hchoices : ∀ choice ∈ s.choices, isResumable choice.kinds = true) : s.rest.Bare := by
  simp only [rest]
  split
  · split
    · next choice hhead =>
        have hkinds := hchoices choice (List.mem_of_head? hhead)
        have hbelow := sameBelow_pushContent (s.clearFlow.takeChoice choice) choice.result
        exact (hbelow.active (active_takeChoice hkinds)).bare
    · exact s.bare_clearFlow
  · exact s.bare_clearFlow

theorem bare_choose {s : State} {choice : PendingChoice}
    (hkinds : isResumable choice.kinds = true) : (s.choose choice).Bare := by
  have hecho := sameBelow_echo (s.takeChoice choice) choice
  have hbelow := hecho.trans (sameBelow_pushContent _ choice.result)
  exact (hbelow.active (active_takeChoice hkinds)).bare

/-- The last frame takes with it what is in its scope. -/
theorem Aligned.bare_dropFrame {s : State} (h : s.Aligned) : s.dropFrame.Bare := by
  intro hnil
  have hempty : s.frames.pop.isEmpty = true := List.isEmpty_iff.mpr hnil
  have hdepth := h.dropFrame.scopes
  rw [hnil, List.length_nil, Store.depth_eq] at hdepth
  -- There are as many scopes as frames, but at least one: around the one that is emptied there is
  -- none.
  have houter : s.dropFrame.store.outerShape = [] := List.length_eq_zero_iff.mp (by omega)
  rw [Store.shape_eq, houter, State.dropFrame, if_pos hempty]
  rfl

theorem Aligned.bare_finishFrame {s : State} (h : s.Aligned) : s.finishFrame.Bare := by
  simp only [finishFrame]
  split
  · exact bare_rest h.dropFrame.choices
  · exact h.bare_dropFrame
  · exact h.bare_dropFrame

theorem Went.bare {s t : State} {target : String} (h : s.Went target t) (hs : s.Active) :
    t.Bare := by
  cases h with
  | ended _ h =>
      rw [h]
      exact s.bare_clearFlow
  | done _ _ h =>
      rw [h, endFlow]
      split
      · exact hs.toAligned.bare_dropFrame
      · exact bare_rest hs.choices
  | moved _ _ h => exact (h.active hs).bare

theorem Diverted.bare {s t : State} {d : Divert} (h : s.Diverted d t) (hs : s.Active) :
    t.Bare := by
  cases h with
  | back _ _ _ h =>
      rw [h]
      exact hs.toAligned.bare_dropFrame
  | onward _ hin _ h => exact h.bare (hs.dropFrame FrameKind.isTunnel hin rfl)
  | tunnel _ h => exact h.active.bare
  | thread _ h => exact h.active.bare
  | went _ h => exact h.bare hs

theorem Offered.bare {s t : State} (h : s.Offered t) : t.Bare := by
  cases h with
  | way _ hoffers h =>
      rw [h]
      exact hoffers.toAligned.bare_dropFrame
  | rest _ hoffers h =>
      rw [h]
      exact bare_rest hoffers.choices

theorem Stepped.bare {s t : State} (h : s.Stepped t) (hs : s.Aligned) : t.Bare := by
  cases h with
  | idle _ h =>
      rw [h]
      exact bare_rest hs.choices
  | finished _ _ h =>
      rw [h]
      exact hs.bare_finishFrame
  | passed hactive _ _ h => exact (h.active hactive).bare
  | ran hactive _ _ _ hon h =>
      have hrunning := hon.active hactive
      cases h with
      | on _ h => exact (h.active hrunning).bare
      | back _ hin h => exact (h.active hrunning hin).bare
      | diverted _ _ h => exact h.bare hrunning
      | offered _ _ h => exact h.bare

theorem Stepped.cleared {s t : State} (h : s.Stepped t) (hs : s.Aligned) : t.Cleared :=
  ⟨(h.moved hs).aligned hs, h.bare hs⟩

end State

namespace Story

open Outcome

variable {story : Story}

/-- Whatever is done, a flow that ends leaves nothing behind. -/
theorem keeps_cleared (story : Story) :
    story.Keeps State.Cleared fun _ t => t.Cleared where
  fail _ h := h
  congr h hsame := by
    refine ⟨story.keeps_aligned.congr h.toAligned hsame, fun hnil => ?_⟩
    rw [hsame.frames] at hnil
    rw [hsame.shape, h.bare hnil]
  step h _ :=
    Ensures.mono (reaches_step story.honours_callFunction h.toAligned)
      (fun _ _ ht => ht.cleared h.toAligned) fun _ _ ht => ht.toActive.cleared
  choose h hmem :=
    ⟨story.keeps_aligned.choose h.toAligned hmem, State.bare_choose (h.choices _ hmem)⟩

theorem ensures_serve {s : State} (h : s.Cleared) (call : HostCall) :
    Ensures (fun _ t => t.Cleared) (fun _ t => t.Cleared) (story.serve call s) := by
  have hquiet {store : Store} (hshape : store.shape = s.store.shape) :
      State.Cleared { s with store := store } :=
    story.keeps_cleared.congr h ⟨⟨⟨rfl, rfl, rfl, rfl⟩, rfl, rfl⟩, hshape⟩
  cases call with
  | ask request =>
      exact story.keeps_cleared.ensures_request State.Active.cleared h request
  | unobserveAll name => exact hquiet rfl
  | unobserveEverywhere id => exact hquiet rfl
  | unobserve name id =>
      have hshape : (s.store.unobserve name id).shape = s.store.shape := by
        unfold Store.unobserve
        split
        · rfl
        · rfl
      exact hquiet hshape

theorem Attainable.cleared {s : State} (h : story.Attainable s) : s.Cleared := by
  induction h with
  | start hstart => exact (active_of_start hstart).1.cleared
  | next _ hadvances ih =>
      cases hadvances with
      | call call hleaves => exact hleaves.ensured (ensures_serve ih call)
      | step halt hleaves =>
          refine hleaves.ensured ?_
          exact Ensures.mono (reaches_step (story.honours_watchedFunction halt) ih.toAligned)
            (fun _ _ ht => ht.cleared ih.toAligned) fun _ _ ht => ht.toActive.cleared

/-! ## Writing by the host -/

variable {s : State} {name : String} {value : Value}

theorem checkValue_of_knows (h : s.store.Knows value) : checkValue value s = .ok () s := by
  cases value with
  | list l =>
      show Flow.ofValue (s.store.registry.check l) s = .ok () s
      rw [h l rfl]
      rfl
  | bool _ | int _ | float _ | string _ => rfl

theorem exists_fault_of_not_knows (h : ¬s.store.Knows value) :
    ∃ fault, checkValue value s = .error fault s := by
  cases value with
  | list l =>
      cases hcheck : s.store.registry.check l with
      | ok _ =>
          refine absurd ?_ h
          rintro l' ⟨⟩
          exact hcheck
      | error fault =>
          refine ⟨.expression (.value fault), ?_⟩
          show Flow.ofValue (s.store.registry.check l) s = _
          rw [hcheck]
          rfl
  | bool _ | int _ | float _ | string _ => exact absurd (by simp [Store.Knows]) h

theorem setVariable_eq (hglobal : s.store.hasGlobal name = true) :
    setVariable name value s = (do
      checkValue value
      let store ← Flow.ofExpr (s.store.set name value)
      Flow.modifyStore fun _ => store : Flow Unit) s := by
  show (if (s.store.hasGlobal name || s.store.isConstant name) = true then _ else _ :
    Flow Unit) s = _
  rw [hglobal, Bool.true_or, if_pos rfl]

theorem exists_setVariable (hglobal : s.store.hasGlobal name = true)
    (hvalue : s.store.Knows value) (hconstant : s.store.isConstant name = false) :
    ∃ store, s.store.set name value = .ok store ∧
      setVariable name value s = .ok () { s with store := store } := by
  obtain ⟨store, hset⟩ := Store.exists_set hconstant value
  refine ⟨store, hset, ?_⟩
  rw [setVariable_eq hglobal, run_of_eq_ok (checkValue_of_knows hvalue), hset]
  rfl

theorem exists_fault_of_setVariable (hglobal : s.store.hasGlobal name = true)
    (h : ¬(s.store.Knows value ∧ s.store.isConstant name = false)) :
    ∃ fault, setVariable name value s = .error fault s := by
  rw [setVariable_eq hglobal]
  by_cases hvalue : s.store.Knows value
  · have hconstant : s.store.isConstant name = true := by
      rw [← Bool.not_eq_false]
      exact fun hnot => h ⟨hvalue, hnot⟩
    refine ⟨.expression (.assignToConstant (s.store.canonical name)), ?_⟩
    rw [run_of_eq_ok (checkValue_of_knows hvalue), Store.set_of_isConstant hconstant]
    rfl
  · obtain ⟨fault, hfault⟩ := exists_fault_of_not_knows hvalue
    exact ⟨fault, run_of_eq_error hfault⟩

/-- The host can write a global that has been declared exactly if its value is known to the list
definitions and its name does not stand for a constant; a write that fails changes nothing.

A write that is done goes to what the name stands for: to the innermost temporary, or to the global
if there is none.  So it sets the global of that name where the name stands for itself and no
temporary has it, and wherever there is no frame.  Everywhere else it misses that global. -/
theorem sets_of_setVariable (h : story.Attainable s) (hglobal : s.store.hasGlobal name = true)
    (value : Value) :
    ((∃ t, setVariable name value s = .ok () t) ↔
      s.store.Knows value ∧ s.store.isConstant name = false) ∧
    (∀ fault t, setVariable name value s = .error fault t → t = s) ∧
    ∀ t, setVariable name value s = .ok () t →
      t = { s with store := t.store } ∧
      (s.store.SetsTemporary t.store (s.store.canonical name) value ∨
        s.store.temporary? (s.store.canonical name) = none ∧
          s.store.SetsGlobal t.store (s.store.canonical name) value) ∧
      (s.store.canonical name = name ∧ s.store.temporary? name = none →
        s.store.SetsGlobal t.store name value) ∧
      (s.frames.items = [] → s.store.SetsGlobal t.store name value) ∧
      (¬(s.store.canonical name = name ∧ s.store.temporary? name = none) →
        s.store.Misses t.store name) := by
  by_cases hdone : s.store.Knows value ∧ s.store.isConstant name = false
  · obtain ⟨store, hset, hrun⟩ := exists_setVariable hglobal hdone.1 hdone.2
    obtain ⟨hsets, hmisses⟩ := Store.setsGlobal_or_misses hset
    refine ⟨⟨fun _ => hdone, fun _ => ⟨_, hrun⟩⟩, ?_, ?_⟩
    · intro fault t hfails
      rw [hrun] at hfails
      cases hfails
    · intro t hok
      rw [hrun] at hok
      cases hok
      refine ⟨rfl, Store.sets_of_set hset, hsets, fun hnil => ?_, hmisses⟩
      exact hsets (Store.plain_of_shape (h.cleared.bare hnil) name)
  · obtain ⟨fault, hrun⟩ := exists_fault_of_setVariable hglobal hdone
    rw [hrun]
    refine ⟨⟨?_, fun hboth => absurd hboth hdone⟩, ?_, ?_⟩
    · rintro ⟨t, ⟨⟩⟩
    · rintro fault' t ⟨⟩
      rfl
    · rintro t ⟨⟩

/-- A story with three variables that visits a hall.  The hall has parameters with the names of two
of them: the one has a value of its own, and the other stands for the third variable. -/
def guest : Story where
  script :=
    { knots :=
        [{ name := "door", id := ⟨1⟩, parameters := []
           objects :=
             [.global ⟨"coat", ⟨"1", [.int 1], [0]⟩, false⟩,
               .global ⟨"hat", ⟨"2", [.int 2], [0]⟩, false⟩,
               .global ⟨"keys", ⟨"3", [.int 3], [0]⟩, false⟩,
               .divert { kind := .tunnel, target := some "hall",
                         args := [⟨"5", [.int 5], [0]⟩, ⟨"keys", [.ident "keys"], [0]⟩] },
               .text "Out."]
           stitches := [], gathers := [], isFunction := false },
         { name := "hall", id := ⟨2⟩, parameters := [⟨"coat", false⟩, ⟨"hat", true⟩]
           objects := [.text "One.", .lineBreak, .text "Two."]
           stitches := [], gathers := [], isFunction := false }]
      sound := rfl }

/-- The guest between the two lines of the hall, with an observer of each variable. -/
def guestInHall (start : State) : State :=
  [.observe "coat", .observe "hat", .observe "keys", .continueLine].foldl
    (fun s request => (guest.perform request).after s) start

theorem attainable_guestInHall {start : State} (h : guest.start = .ok start) :
    guest.Attainable (guestInHall start) := by
  have hrun (requests : List Request) : ∀ {s : State}, guest.Attainable s →
      guest.Attainable (requests.foldl (fun s request => (guest.perform request).after s) s) := by
    induction requests with
    | nil => exact id
    | cons request rest ih =>
        intro s hs
        exact ih (hs.next (.call (.ask request) (Flow.leaves_after _ s)))
  exact hrun _ (.start h)

/-- In the hall the keys can be written, and the coat that the host knows stays what it is. -/
theorem sets_of_setVariable_guest :
    ∃ s t u, guest.Attainable s ∧ s.kinds = [.tunnel 0, .root] ∧
      setVariable "keys" (.int 9) s = .ok () t ∧ s.store.SetsGlobal t.store "keys" (.int 9) ∧
      setVariable "coat" (.int 9) s = .ok () u ∧ s.store.Misses u.store "coat" := by
  have hrun : (guest.start.toOption.map fun start =>
      let s := guestInHall start
      decide (s.kinds = [.tunnel 0, .root] ∧
        (s.store.hasGlobal "keys" = true ∧ s.store.isConstant "keys" = false ∧
          s.store.canonical "keys" = "keys" ∧ s.store.temporary? "keys" = none) ∧
        s.store.hasGlobal "coat" = true ∧ s.store.isConstant "coat" = false ∧
          s.store.temporary? "coat" = some (.int 5))) = some true := by
    decide +kernel
  obtain ⟨start, hstart, hstate⟩ := exists_start hrun
  obtain ⟨hkinds, ⟨hkeys, hfree, hplain⟩, hcoat, hfree', hown⟩ := of_decide_eq_true hstate
  have hs := attainable_guestInHall hstart
  obtain ⟨hdone, _, hsets⟩ := sets_of_setVariable hs hkeys (.int 9)
  obtain ⟨t, ht⟩ := hdone.mpr ⟨nofun, hfree⟩
  obtain ⟨_, _, hreached, _, _⟩ := hsets t ht
  obtain ⟨hdone', _, hsets'⟩ := sets_of_setVariable hs hcoat (.int 9)
  obtain ⟨u, hu⟩ := hdone'.mpr ⟨nofun, hfree'⟩
  obtain ⟨_, _, _, _, hmissed⟩ := hsets' u hu
  refine ⟨_, t, u, hs, hkinds, ht, hreached hplain, hu, hmissed ?_⟩
  rintro ⟨_, hnone⟩
  rw [hown] at hnone
  cases hnone

/-- In the hall a write of the coat changes the guest's own, and a write of the hat changes the
keys.  The coat and the hat that the host knows stay what they are. -/
theorem setVariable_in_hall :
    ∃ s t u, guest.Attainable s ∧ s.store.hasGlobal "coat" = true ∧ s.store.hasGlobal "hat" = true ∧
      setVariable "coat" (.int 9) s = .ok () t ∧ setVariable "hat" (.int 9) s = .ok () u ∧
      t.store.globals.get? "coat" = some (.int 1) ∧ t.store.temporary? "coat" = some (.int 9) ∧
      t.store.notices = [] ∧
      u.store.globals.get? "hat" = some (.int 2) ∧ u.store.globals.get? "keys" = some (.int 9) ∧
      u.store.notices = [⟨⟨2⟩, "keys", .int 9⟩] := by
  have hrun : (guest.start.toOption.map fun start =>
      let s := guestInHall start
      let t := (setVariable "coat" (.int 9)).after s
      let u := (setVariable "hat" (.int 9)).after s
      decide (s.store.hasGlobal "coat" = true ∧ s.store.hasGlobal "hat" = true ∧
        (setVariable "coat" (.int 9)).answer? s = some () ∧
        (setVariable "hat" (.int 9)).answer? s = some () ∧
        t.store.globals.get? "coat" = some (.int 1) ∧ t.store.temporary? "coat" = some (.int 9) ∧
        t.store.notices = [] ∧
        u.store.globals.get? "hat" = some (.int 2) ∧ u.store.globals.get? "keys" = some (.int 9) ∧
        u.store.notices = [⟨⟨2⟩, "keys", .int 9⟩])) = some true := by
    decide +kernel
  obtain ⟨start, hstart, hstate⟩ := exists_start hrun
  obtain ⟨hcoat, hhat, hfirst, hsecond, hleft⟩ := of_decide_eq_true hstate
  exact ⟨_, _, _, attainable_guestInHall hstart, hcoat, hhat, Flow.of_answer?_eq_some hfirst,
    Flow.of_answer?_eq_some hsecond, hleft⟩

end Story

end Skein
