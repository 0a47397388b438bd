import Skein.Proofs.Story.GatherVisits
import Skein.Proofs.Story.OnceOnly

set_option autoImplicit false

/-!
# Story: visits and turns

What a state knows of a section is how often it was visited and the turns since the last time.
Both are kept by counting up: a visit counts one of them up and sets the other back, and the end
of a turn counts up the second for every section at once.  Read against what happened, the
first is the number of visits, and the second is the difference of two turns: the one that it is
now, and the one that it was when the section was visited last.

A turn ends where a choice is made, by the player or as a fallback, and nowhere else.
-/

namespace Skein

/-! ## Turns since a visit -/

namespace State

theorem turnsSince_congr {s t : State} (h : t.visits = s.visits) (id : NodeId) :
    t.turnsSince id = s.turnsSince id := by
  rw [turnsSince, turnsSince, h]

theorem turnsSince_eq_neg_one_iff {s : State} {id : NodeId} :
    s.turnsSince id = -1 ↔ s.timesVisited id = 0 := by
  unfold turnsSince timesVisited visitOf
  cases s.visits.get? id with
  | none => simp
  | some v =>
      rw [Option.getD_some]
      dsimp only
      split
      · omega
      · omega

theorem turnsSince_visit (s : State) (id other : NodeId) :
    (s.visit id).turnsSince other = if id = other then 0 else s.turnsSince other := by
  unfold turnsSince visit
  by_cases h : id = other
  · subst h
    simp
  · simp [h]

theorem turnsSince_visitAll (s : State) (ids : List NodeId) (id : NodeId) :
    (s.visitAll ids).turnsSince id = if id ∈ ids then 0 else s.turnsSince id := by
  induction ids generalizing s with
  | nil => rfl
  | cons first rest ih =>
      show ((s.visit first).visitAll rest).turnsSince id = _
      rw [ih, turnsSince_visit]
      by_cases hrest : id ∈ rest
      · simp [hrest]
      · by_cases hfirst : first = id
        · simp [hfirst]
        · simp [hrest, hfirst, Ne.symm hfirst]

/-- A choice that is made is one more turn since every section that was visited. -/
theorem turnsSince_fallBack {s : State} {id : NodeId} (h : 0 < s.timesVisited id)
    (choice : PendingChoice) : (s.fallBack choice).turnsSince id = s.turnsSince id + 1 := by
  rw [turnsSince, turnsSince, visits_fallBack, Table.get?_mapValues]
  unfold timesVisited visitOf at h
  cases hvisit : s.visits.get? id with
  | none =>
      rw [hvisit] at h
      cases h
  | some v =>
      rw [hvisit, Option.getD_some] at h
      simp [h]

end State

/-! ## What one event counts -/

/-- The sections that an event visits: those that control goes to because they are named, or the
gather that a cursor comes to, unless the cursor was put there for a gather. -/
def Event.visited (script : Script) : Event → List NodeId
  | .entered _ location => location.visits
  | .reached knot cursor =>
    if cursor.arrives then
      ((script.knot? knot).bind (·.gatherAt? cursor.index)).toList.map (·.id)
    else []
  | .offered _ | .made _ => []

namespace Story

variable {story : Story}

theorem visits_past (s : State) (cursor : Cursor) (next : Frame) :
    (story.past s cursor next).visits =
      (s.visitAll (Event.visited story.script (.reached next.knot cursor))).visits := by
  simp only [past, arrive, Event.visited]
  by_cases harrives : cursor.arrives = true
  · simp only [harrives, if_true]
    cases (story.script.knot? next.knot).bind (·.gatherAt? cursor.index) with
    | none => rfl
    | some gather => rfl
  · simp only [harrives]
    rfl

/-- What happens visits the sections of its events, or it is a choice that is made. -/
inductive Counts (story : Story) (s : State) : List Event → State → Prop where
  | visits {events : List Event} {t : State} :
      t.visits = (s.visitAll (events.flatMap (Event.visited story.script))).visits →
      t.turn = s.turn → events.filter Event.isMade = [] → Counts story s events t
  | made (choice : PendingChoice) : Counts story s [.made choice] (s.fallBack choice)

theorem Happens.counts {s t : State} {events : List Event} (h : story.Happens s events t) :
    story.Counts s events t := by
  cases h with
  | quiet hstill => exact .visits hstill.visits hstill.turn rfl
  | @reached frame next cursor htop hnext =>
      refine .visits ?_ (sameBelow_past htop hnext).turn rfl
      rw [visits_past, List.flatMap_singleton]
  | entered _ _ _ hturn hvisits =>
      refine .visits ?_ hturn.turn rfl
      rw [hvisits, List.flatMap_singleton]
      rfl
  | refused _ _ _ hturn hvisits => exact .visits hvisits hturn.turn rfl
  | made _ => exact .made _
  | posed _ | nested _ _ | left | offered _ | halted | withdrawn => exact .visits rfl rfl rfl

/-- Every visit is counted. -/
theorem Counts.timesVisited_eq {s t : State} {events : List Event} (h : story.Counts s events t)
    (id : NodeId) :
    t.timesVisited id =
      s.timesVisited id + (events.flatMap (Event.visited story.script)).count id := by
  cases h with
  | visits hvisits _ _ => rw [State.timesVisited_congr hvisits, State.timesVisited_visitAll]
  | made choice => exact s.timesVisited_fallBack choice id

/-- A turn is a choice that is made. -/
theorem Counts.turn_eq {s t : State} {events : List Event} (h : story.Counts s events t) :
    t.turn = s.turn + (events.filter Event.isMade).length := by
  cases h with
  | visits _ hturn hmade => rw [hturn, hmade, List.length_nil, Nat.add_zero]
  | made choice => exact (s.record_fallBack choice).1

theorem Counts.turnsSince_of_visited {s t : State} {events : List Event}
    (h : story.Counts s events t) {id : NodeId}
    (hid : id ∈ events.flatMap (Event.visited story.script)) : t.turnsSince id = 0 := by
  cases h with
  | visits hvisits _ _ => rw [State.turnsSince_congr hvisits, State.turnsSince_visitAll, if_pos hid]
  | made choice => cases hid

/-- As long as a section is not visited again, the turns since its visit are those completed. -/
theorem Counts.turnsSince_of_not_visited {s t : State} {events : List Event}
    (h : story.Counts s events t) {id : NodeId}
    (hid : id ∉ events.flatMap (Event.visited story.script)) (hvisited : 0 < s.timesVisited id) :
    t.turnsSince id - t.turn = s.turnsSince id - s.turn := by
  cases h with
  | visits hvisits hturn _ =>
      rw [State.turnsSince_congr hvisits, State.turnsSince_visitAll, if_neg hid, hturn]
  | made choice =>
      rw [State.turnsSince_fallBack hvisited, (s.record_fallBack choice).1]
      omega

/-! ## What a trace counts -/

theorem Trace.timesVisited_eq {s t : State} {log : List Event} (h : story.Trace s log t)
    (id : NodeId) :
    t.timesVisited id =
      s.timesVisited id + (log.flatMap (Event.visited story.script)).count id := by
  induction h with
  | refl => rfl
  | next _ hhappens ih =>
      rw [hhappens.counts.timesVisited_eq, ih, List.flatMap_append, List.count_append]
      omega

theorem Trace.turn_eq {s t : State} {log : List Event} (h : story.Trace s log t) :
    t.turn = s.turn + (log.filter Event.isMade).length := by
  induction h with
  | refl => rfl
  | next _ hhappens ih =>
      rw [hhappens.counts.turn_eq, ih, List.filter_append, List.length_append]
      omega

theorem Trace.turnsSince_of_not_visited {s t : State} {log : List Event} (h : story.Trace s log t)
    {id : NodeId} (hid : ∀ event ∈ log, id ∉ event.visited story.script)
    (hvisited : 0 < s.timesVisited id) :
    t.turnsSince id - t.turn = s.turnsSince id - s.turn := by
  induction h with
  | refl => rfl
  | @next log events t u htrace hhappens ih =>
      have hpositive : 0 < t.timesVisited id := by
        rw [htrace.timesVisited_eq]
        omega
      have hevents : id ∉ events.flatMap (Event.visited story.script) := by
        intro hmem
        obtain ⟨event, hevent, hvisits⟩ := List.mem_flatMap.mp hmem
        exact hid event (List.mem_append_left _ hevent) hvisits
      rw [hhappens.counts.turnsSince_of_not_visited hevents hpositive]
      exact ih fun event hevent => hid event (List.mem_append_right _ hevent)

/-- One change is at most one event. -/
theorem Happens.events_eq {s t : State} {events : List Event} (h : story.Happens s events t) :
    events = [] ∨ ∃ event, events = [event] := by
  cases h with
  | reached _ _ | entered _ _ _ _ _ | offered _ | made _ => exact .inr ⟨_, rfl⟩
  | quiet _ | posed _ | nested _ _ | refused _ _ _ _ _ | left | halted | withdrawn => exact .inl rfl

/-- A trace can be cut after each of its events, and the cut can be made right where the event
happens. -/
theorem Trace.cut {s t : State} {log later before : List Event} {event : Event}
    (h : story.Trace s log t) (hlog : log = later ++ event :: before) :
    ∃ m n, story.Trace s before m ∧ story.Happens m [event] n ∧ story.Trace n later t := by
  induction h generalizing later with
  | refl => simp at hlog
  | @next log events t u htrace hhappens ih =>
      rcases hhappens.events_eq with rfl | ⟨last, rfl⟩
      · obtain ⟨m, n, hm, hn, hlater⟩ := ih hlog
        exact ⟨m, n, hm, hn, hlater.next hhappens⟩
      · cases later with
        | nil =>
            obtain ⟨rfl, rfl⟩ := List.cons.inj hlog
            exact ⟨t, u, htrace, hhappens, .refl⟩
        | cons first later =>
            obtain ⟨rfl, hrest⟩ := List.cons.inj hlog
            obtain ⟨m, n, hm, hn, hlater⟩ := ih hrest
            exact ⟨m, n, hm, hn, hlater.next hhappens⟩

/-! ## What the host does -/

/-- What the host does: it asks for something, or it takes observers away. -/
inductive HostCall where
  | ask (request : Request)
  | unobserveAll (name : String)
  | unobserveEverywhere (id : ObserverId)
  | unobserve (name : String) (id : ObserverId)

/-- Does what the host calls for. -/
def serve (story : Story) : HostCall → Flow Unit
  | .ask request => story.perform request
  | .unobserveAll name => Flow.modifyStore (·.unobserveAll name)
  | .unobserveEverywhere id => Flow.modifyStore (·.unobserveEverywhere id)
  | .unobserve name id => Flow.modifyStore (·.unobserve name id)

/-- A call of the host, or a step in the course of one, leads from one state to another, whether
it succeeds or fails. -/
inductive Advances (story : Story) (s t : State) : Prop where
  | call (call : HostCall) : (story.serve call).Leaves s t → Advances story s t
  | step (halt : State → Bool) :
      (story.step (story.watchedFunction halt story.config.callDepth)).Leaves s t →
        Advances story s t

/-- A state that a story can come to, whatever the host calls for. -/
inductive Attainable (story : Story) : State → Prop where
  | start {s : State} : story.start = .ok s → Attainable story s
  | next {s t : State} : Attainable story s → story.Advances s t → Attainable story t

/-- What happened until a state was attained, latest first. -/
inductive Account (story : Story) : List Event → State → Prop where
  | start {log : List Event} {s : State} : story.start = .ok s →
      story.Trace (.ofSeed story.config.seed) log s → Account story log s
  | next {log new : List Event} {s t : State} : Account story log s → story.Advances s t →
      story.Trace s new t → Account story (new ++ log) t

theorem tells_modifyStore (story : Story) (f : Store → Store) (s : State) :
    story.Tells (Flow.modifyStore f) s fun _ _ => True :=
  ⟨traced_of_still ⟨⟨rfl, rfl, rfl, rfl⟩, rfl, rfl⟩, trivial⟩

theorem tells_serve (story : Story) (call : HostCall) (s : State) :
    story.Tells (story.serve call) s fun _ _ => True := by
  cases call with
  | ask request => exact story.tells_perform request s
  | unobserveAll name => exact story.tells_modifyStore (·.unobserveAll name) s
  | unobserveEverywhere id => exact story.tells_modifyStore (·.unobserveEverywhere id) s
  | unobserve name id => exact story.tells_modifyStore (·.unobserve name id) s

theorem Advances.traced {s t : State} (h : story.Advances s t) : story.Traced s t := by
  cases h with
  | call call hleaves => exact (story.tells_serve call s).leaves hleaves
  | step halt hleaves => exact (tells_step (story.honours_watched halt) s).leaves hleaves

theorem Attainable.exists_account {s : State} (h : story.Attainable s) :
    ∃ log, story.Account log s := by
  induction h with
  | start hstart =>
      obtain ⟨log, htrace⟩ := traced_of_start hstart
      exact ⟨log, .start hstart htrace⟩
  | next _ hadvances ih =>
      obtain ⟨log, hlog⟩ := ih
      obtain ⟨new, hnew⟩ := hadvances.traced
      exact ⟨_, hlog.next hadvances hnew⟩

theorem Account.trace {log : List Event} {s : State} (h : story.Account log s) :
    story.Trace (.ofSeed story.config.seed) log s := by
  induction h with
  | start _ htrace => exact htrace
  | next _ _ hnew ih => exact ih.trans hnew

theorem timesVisited_ofSeed (seed : UInt64) (id : NodeId) :
    (State.ofSeed seed).timesVisited id = 0 := rfl

theorem Account.timesVisited_eq {log : List Event} {s : State} (h : story.Account log s)
    (id : NodeId) : s.timesVisited id = (log.flatMap (Event.visited story.script)).count id := by
  rw [h.trace.timesVisited_eq, timesVisited_ofSeed, Nat.zero_add]

/-- The turns since a section was visited last, as a difference of turns. -/
theorem Trace.turnsSince_of_last {s t : State} {log later before : List Event} {event : Event}
    {id : NodeId} (h : story.Trace s log t) (hlog : log = later ++ event :: before)
    (hevent : id ∈ event.visited story.script)
    (hlater : ∀ other ∈ later, id ∉ other.visited story.script) :
    ∃ m n, story.Trace s before m ∧ story.Happens m [event] n ∧ story.Trace n later t ∧
      t.turnsSince id = t.turn - n.turn := by
  obtain ⟨m, n, hbefore, hhappens, htrace⟩ := h.cut hlog
  have hvisits : id ∈ [event].flatMap (Event.visited story.script) := by
    rw [List.flatMap_singleton]
    exact hevent
  have hzero := hhappens.counts.turnsSince_of_visited hvisits
  have hpositive : 0 < n.timesVisited id := by
    rw [hhappens.counts.timesVisited_eq]
    exact Nat.lt_of_lt_of_le (List.count_pos_iff.mpr hvisits) (Nat.le_add_left _ _)
  have hdifference := htrace.turnsSince_of_not_visited hlater hpositive
  refine ⟨m, n, hbefore, hhappens, htrace, ?_⟩
  omega

/-- Whatever the host calls for: a section was visited as often as it is counted, and there are as
many turns as choices were made.  The turns since a visit are -1 exactly if there was none, and
otherwise the turn that it is now less the turn that it was at the last visit.  From there no
count goes down.  A choice of the player is one that was shown and one more turn, and so is the
fallback that is made where flow comes to rest with nothing to show. -/
theorem visits_of_attainable {s : State} (h : story.Attainable s) (id : NodeId) :
    (∃ log, story.Account log s) ∧
      (∀ log, story.Account log s →
        s.timesVisited id = (log.flatMap (Event.visited story.script)).count id ∧
        s.turn = (log.filter Event.isMade).length ∧
        (s.turnsSince id = -1 ↔ ∀ event ∈ log, id ∉ event.visited story.script) ∧
        ∀ later event before, log = later ++ event :: before → id ∈ event.visited story.script →
          (∀ other ∈ later, id ∉ other.visited story.script) →
          ∃ m n, story.Trace (.ofSeed story.config.seed) before m ∧ story.Happens m [event] n ∧
            story.Trace n later s ∧ s.turnsSince id = s.turn - n.turn) ∧
      (∀ t, story.Advances s t → s.timesVisited id ≤ t.timesVisited id ∧ s.turn ≤ t.turn) ∧
      (∀ index t, chooseIndex index s = .ok () t →
        (∃ choice, s.visibleChoices[index]? = some choice ∧ story.Trace s [.made choice] t) ∧
          t.turn = s.turn + 1) ∧
      ∀ choice, s.visibleChoices = [] → s.choices.head? = some choice →
        story.Trace s [.made choice] s.rest ∧ s.rest.turn = s.turn + 1 := by
  refine ⟨h.exists_account, fun log hlog => ⟨hlog.timesVisited_eq id, ?_, ?_, ?_⟩, ?_, ?_, ?_⟩
  · have hturn := hlog.trace.turn_eq
    rwa [State.ofSeed, Nat.zero_add] at hturn
  · rw [State.turnsSince_eq_neg_one_iff, hlog.timesVisited_eq, List.count_eq_zero]
    simp
  · intro later event before heq hevent hlater
    exact hlog.trace.turnsSince_of_last heq hevent hlater
  · intro t hadvances
    obtain ⟨new, hnew⟩ := hadvances.traced
    rw [hnew.timesVisited_eq, hnew.turn_eq]
    exact ⟨Nat.le_add_right _ _, Nat.le_add_right _ _⟩
  · intro index t hrun
    obtain ⟨choice, hchoice, htrace⟩ : ∃ choice, s.visibleChoices[index]? = some choice ∧
        story.Trace s [.made choice] t := trace_chooseIndex hrun
    exact ⟨⟨choice, hchoice, htrace⟩, htrace.turn_eq⟩
  · intro choice hshown hfirst
    have htrace : story.Trace s [.made choice] s.rest := trace_rest hshown hfirst
    exact ⟨htrace, htrace.turn_eq⟩

/-- The first section is visited at the start.  After the choice to leave it a turn is completed
since, and of a section that there is not nothing is known. -/
theorem visits_of_parley :
    ∃ s log, parley.Attainable s ∧ parley.Account log s ∧
      (log.flatMap (Event.visited parley.script)).count ⟨1⟩ = 1 ∧
      (log.filter Event.isMade).length = 1 ∧ s.turnsSince ⟨1⟩ = 1 ∧
      ∀ event ∈ log, ⟨9⟩ ∉ event.visited parley.script := by
  have hrun : (parley.start.toOption.map fun start =>
      let s := (parley.serve (.ask (.choose 1))).after
        ((parley.serve (.ask .continueLine)).after start)
      (s.timesVisited ⟨1⟩, s.turn, s.turnsSince ⟨1⟩, s.turnsSince ⟨9⟩)) = some (1, 1, 1, -1) := by
    decide +kernel
  obtain ⟨start, hstart, hrun⟩ := exists_start hrun
  obtain ⟨htimes, hrest⟩ := Prod.mk.inj hrun
  obtain ⟨hturn, hrest⟩ := Prod.mk.inj hrest
  obtain ⟨hsince, hnever⟩ := Prod.mk.inj hrest
  have hoffered := (Attainable.start hstart).next
    (.call (.ask .continueLine) (Flow.leaves_after _ _))
  have hchosen := hoffered.next (.call (.ask (.choose 1)) (Flow.leaves_after _ _))
  obtain ⟨⟨log, hlog⟩, hall, _⟩ := visits_of_attainable hchosen ⟨1⟩
  obtain ⟨hcount, hmade, _⟩ := hall log hlog
  obtain ⟨_, hnone, _⟩ := visits_of_attainable hchosen ⟨9⟩
  refine ⟨_, log, hchosen, hlog, ?_, ?_, hsince, (hnone log hlog).2.2.1.mp hnever⟩
  · rw [← hcount]
    exact htimes
  · rw [← hmade]
    exact hturn

end Story

end Skein
