import Skein.Proofs.Story.DraftLog

set_option autoImplicit false

/-!
# Story: drafting

A draft is turned into knots, and those into a script.  No identity is used twice if none came from
elsewhere.  Stitches and gathers are put at the end of what their knot has so far, where the checks
on knots want them, and what is added later leaves them in place.  So a draft fails with the first
fault that was met or with a name that two knots have, and with nothing else.
-/

namespace Skein.Draft

variable {α : Type}

/-! ## Logs of knots -/

/-- Whether the last node is a block of choices once a part has been drafted.  A part that cannot be
read leaves no node. -/
def Part.endsInChoice (before : Bool) : Part → Bool
  | .choice _ => true
  | .node n => n.isChoice
  | .interpolation source | .logic source | .global _ source _ | .conditional (some source) _ =>
    before && !(reading source).isEmpty
  | _ => false

/-- What drafting the parts of a knot leads to.  It depends on whether a block of choices stands
last. -/
def knotLog (name : String) (atChoice : Bool) : List KnotPart → List Event
  | [] => []
  | .part p :: rest => p.log ++ knotLog name (p.endsInChoice atChoice) rest
  | .parameter _ :: rest => knotLog name atChoice rest
  | .stitch _ :: rest => .drawn :: knotLog name atChoice rest
  | .gather label :: rest =>
    .drawn :: ((if atChoice then [] else [.failed (.structural (.invalidGather name label))]) ++
      knotLog name atChoice rest)

/-- What drafting a section leads to. -/
def Section.log : Section → List Event
  | .knot name _ parts => .drawn :: knotLog name false parts
  | .ready k => k.ids.map .brought
  | .skippedId => [.drawn]

/-! ## Knots -/

/-- Whether a block of choices stands last in a knot. -/
def endsInChoice (knot : Knot) : Bool := knot.objects.getLast?.any Node.isChoice

theorem endsInChoice_append (knot : Knot) (n : Option Node) :
    endsInChoice { knot with objects := knot.objects ++ n.toList } =
      (n.map Node.isChoice).getD (endsInChoice knot) := by
  cases n with
  | none =>
      show Option.any Node.isChoice (knot.objects ++ []).getLast? = _
      rw [List.append_nil]
      rfl
  | some n =>
      show Option.any Node.isChoice (knot.objects ++ [n]).getLast? = _
      rw [List.getLast?_concat]
      rfl

/-- Whether a block of choices stands last after a part is told from the part and what was there. -/
theorem endsInChoice_node? (part : Part) (before : Bool) (desk : Desk) :
    (((node? part).run desk).1.map Node.isChoice).getD before = part.endsInChoice before := by
  cases part with
  | interpolation source | logic source | global name source constant =>
      simp only [node?, expression?, Part.endsInChoice, reading]
      cases Expression.parse Symbols.none source with
      | ok e => cases before <;> rfl
      | error fault => cases before <;> rfl
  | conditional subject arms =>
      cases subject with
      | none =>
          simp only [node?, Part.endsInChoice]
          rfl
      | some source =>
          simp only [node?, expression?, Part.endsInChoice, reading]
          cases Expression.parse Symbols.none source with
          | ok e => cases before <;> rfl
          | error fault => cases before <;> rfl
  | _ =>
      simp only [node?, Part.endsInChoice]
      rfl

section Gathers

variable {gather : Gather}

theorem map_addToLast {f : Stitch → α} (hf : ∀ stitch gathers, f { stitch with gathers } = f stitch)
    (stitches : List Stitch) : (addToLast gather stitches).map f = stitches.map f := by
  fun_induction addToLast gather stitches with
  | case1 => rfl
  | case2 stitch => simp [hf]
  | case3 stitch rest hrest ih => simp [ih]

theorem flatMap_addToLast {stitches : List Stitch} (h : stitches ≠ []) :
    (addToLast gather stitches).flatMap (·.gathers) = stitches.flatMap (·.gathers) ++ [gather] := by
  fun_induction addToLast gather stitches with
  | case1 => exact absurd rfl h
  | case2 stitch => simp
  | case3 stitch rest hrest ih => simp [ih hrest]

variable (knot : Knot)

theorem objects_addGather : (addGather knot gather).objects = knot.objects := by
  unfold addGather
  split <;> rfl

theorem name_addGather : (addGather knot gather).name = knot.name := by
  unfold addGather
  split <;> rfl

theorem endsInChoice_addGather : endsInChoice (addGather knot gather) = endsInChoice knot := by
  rw [endsInChoice, objects_addGather]
  rfl

theorem allGathers_addGather :
    (addGather knot gather).allGathers = knot.allGathers ++ [gather] := by
  unfold addGather Knot.allGathers
  split
  · next hnone => simp [List.isEmpty_iff.mp hnone]
  · next hsome =>
    rw [flatMap_addToLast (by simpa using hsome), List.append_assoc]

theorem map_stitches_addGather {f : Stitch → α}
    (hf : ∀ stitch gathers, f { stitch with gathers } = f stitch) :
    (addGather knot gather).stitches.map f = knot.stitches.map f := by
  unfold addGather
  split
  · rfl
  · exact map_addToLast hf _

end Gathers

theorem subperm_insert (front back : List NodeId) (id : NodeId) :
    List.Subperm (front ++ id :: back) (front ++ back ++ [id]) :=
  (List.perm_middle.trans (List.perm_append_singleton id _).symm).subperm

theorem ids_addStitch (knot : Knot) (name : String) (id : NodeId) (offset : Nat) :
    List.Subperm (Knot.ids { knot with
      stitches := knot.stitches ++ [{ name := name, id := id, offset := offset, gathers := [] }] })
      (knot.ids ++ [id]) := by
  have h := subperm_insert (knot.id :: knot.stitches.map (·.id))
    (knot.allGathers.map (·.id) ++ Content.ids knot.objects) id
  simpa [Knot.ids, Knot.sectionIds, Knot.allGathers] using h

theorem ids_addGather (knot : Knot) (gather : Gather) :
    List.Subperm (addGather knot gather).ids (knot.ids ++ [gather.id]) := by
  have hid : (addGather knot gather).id = knot.id := by
    unfold addGather
    split <;> rfl
  have hstitches : (addGather knot gather).stitches.map (·.id) = knot.stitches.map (·.id) :=
    map_stitches_addGather knot fun _ _ => rfl
  have h := subperm_insert knot.sectionIds (Content.ids knot.objects) gather.id
  simpa [Knot.ids, Knot.sectionIds, hid, hstitches, allGathers_addGather, objects_addGather] using h

theorem keepsTo_extendAll (knot : Knot) (parts : List KnotPart) :
    KeepsTo (extendAll knot parts) (knotLog knot.name (endsInChoice knot) parts) knot.ids
      Knot.ids := by
  induction parts generalizing knot with
  | nil => exact .pure (List.Subperm.refl _)
  | cons part rest ih =>
      cases part with
      | part p =>
          simp only [extendAll, extend, bind_assoc, pure_bind, knotLog]
          refine ((keepsTo_node? p).frame rfl knot.ids).bind_of fun desk => ?_
          -- The log goes by the part, the knot by the node that was made of it.
          rw [← endsInChoice_node? p _ desk, ← endsInChoice_append]
          refine (ih _).more ?_
          rw [Knot.ids, Content.ids_append, ← List.append_assoc]
          exact List.Subperm.refl _
      | parameter p =>
          simp only [extendAll, extend, pure_bind, knotLog]
          exact ih _
      | stitch name =>
          simp only [extendAll, extend, bind_assoc, pure_bind, knotLog]
          refine (keepsTo_freshId.frame rfl knot.ids).bind fun id => ?_
          exact (ih _).more (ids_addStitch knot name id _)
      | gather name =>
          simp only [extendAll, extend, bind_assoc, knotLog]
          refine (keepsTo_freshId.frame rfl knot.ids).bind fun id => ?_
          have hlast : knot.objects.getLast?.any Node.isChoice = endsInChoice knot := rfl
          rw [hlast]
          cases hchoice : endsInChoice knot with
          | true =>
              simp only [if_true, pure_bind]
              refine KeepsTo.more ?_ (ids_addGather knot
                { name := name, id := id, level := 1, choiceIndex := knot.objects.length - 1 })
              rw [← name_addGather, ← hchoice, ← endsInChoice_addGather]
              exact ih _
          | false =>
              simp only [Bool.false_eq_true, if_false, bind_assoc, pure_bind]
              refine ((keepsTo_report _).frame rfl _).bind fun _ => ?_
              -- The identity was drawn all the same, and is lost.
              rw [← hchoice, List.append_nil]
              exact (ih knot).more (List.sublist_append_left _ _).subperm

theorem keepsTo_knot? (s : Section) :
    KeepsTo (knot? s) s.log [] fun k => k.toList.flatMap Knot.ids := by
  cases s with
  | knot name isFunction parts =>
      simp only [knot?, Section.log]
      refine keepsTo_freshId.bind fun id => ?_
      refine ((keepsTo_extendAll _ parts).more ?_).map fun k => ?_
      · rw [Knot.ids, Content.ids_nil]
        exact List.Subperm.refl _
      · rw [Option.toList_some, List.flatMap_singleton]
  | ready k =>
      simp only [knot?, Section.log]
      simpa using keepsTo_ready (some k) fun k => k.toList.flatMap Knot.ids
  | skippedId =>
      simp only [knot?, Section.log]
      exact keepsTo_freshId.map fun id => List.nil_subperm

theorem keepsTo_knots (done : List Knot) (sections : List Section) :
    KeepsTo (knots done sections) (sections.flatMap Section.log) (done.flatMap Knot.ids)
      fun built => built.flatMap Knot.ids := by
  induction sections generalizing done with
  | nil => exact .pure (subperm_reverse done)
  | cons s rest ih =>
      refine ((keepsTo_knot? s).frame rfl _).bind fun k => ?_
      refine (ih _).more ?_
      rw [List.flatMap_append]
      exact List.perm_append_comm.subperm

/-! ## Checks -/

/-- Stitches start within the objects, none before the one in front of it, and gathers follow blocks
of choices. -/
structure Placed (knot : Knot) : Prop where
  within : ∀ offset ∈ knot.stitches.map (·.offset), offset ≤ knot.objects.length
  sorted : (knot.stitches.map (·.offset)).Pairwise (· ≤ ·)
  choices : ∀ gather ∈ knot.allGathers, knot.objects[gather.choiceIndex]?.any Node.isChoice = true

namespace Placed

variable {knot : Knot}

theorem checkStitches (stitches : List Stitch) {least : Nat}
    (hwithin : ∀ stitch ∈ stitches, least ≤ stitch.offset ∧ stitch.offset ≤ knot.objects.length)
    (hsorted : stitches.Pairwise fun first second => first.offset ≤ second.offset) :
    knot.checkStitches least stitches = .ok () := by
  induction stitches generalizing least with
  | nil => rfl
  | cons stitch rest ih =>
      obtain ⟨⟨hleast, hlength⟩, hrest⟩ := List.forall_mem_cons.mp hwithin
      obtain ⟨hfirst, hsorted⟩ := List.pairwise_cons.mp hsorted
      rw [Knot.checkStitches, if_neg (by simp; omega)]
      exact ih (fun s hs => ⟨hfirst s hs, (hrest s hs).2⟩) hsorted

theorem checkGathers {gathers : List Gather}
    (h : ∀ gather ∈ gathers, knot.objects[gather.choiceIndex]?.any Node.isChoice = true) :
    knot.checkGathers gathers = .ok () := by
  induction gathers with
  | nil => rfl
  | cons gather rest ih =>
      obtain ⟨hgather, hrest⟩ := List.forall_mem_cons.mp h
      rw [Knot.checkGathers, if_pos hgather]
      exact ih hrest

theorem check (h : Placed knot) : knot.check = .ok () := by
  have hstitches : knot.checkStitches 0 knot.stitches = .ok () :=
    checkStitches knot.stitches
      (fun s hs => ⟨Nat.zero_le _, h.within _ (List.mem_map_of_mem hs)⟩)
      (List.pairwise_map.mp h.sorted)
  rw [Knot.check, hstitches]
  exact checkGathers h.choices

theorem empty {name : String} {id : NodeId} {isFunction : Bool} :
    Placed { name := name, id := id, parameters := [], objects := [], stitches := [], gathers := []
             isFunction := isFunction } where
  within _ hoffset := (List.not_mem_nil hoffset).elim
  sorted := .nil
  choices _ hgather := (List.not_mem_nil hgather).elim

/-- More objects at the end put nothing out of place. -/
theorem addObjects (h : Placed knot) (objects : Content) :
    Placed { knot with objects := knot.objects ++ objects } where
  within offset hoffset := by
    have := h.within offset hoffset
    simp only [List.length_append]
    omega
  sorted := h.sorted
  choices gather hgather := by
    have hchoice := h.choices gather hgather
    have hlt : gather.choiceIndex < knot.objects.length := by
      obtain ⟨n, hn, _⟩ := (Option.any_eq_true _ _).mp hchoice
      exact (List.getElem?_eq_some_iff.mp hn).1
    rwa [List.getElem?_append_left hlt]

/-- A stitch may start at the end. -/
theorem addStitch (h : Placed knot) (name : String) (id : NodeId) :
    Placed { knot with
      stitches := knot.stitches ++
        [{ name := name, id := id, offset := knot.objects.length, gathers := [] }] } where
  within := by
    simp only [List.map_append, List.map_cons, List.map_nil]
    refine List.forall_mem_append.mpr ⟨h.within, fun offset hoffset => ?_⟩
    exact Nat.le_of_eq (List.mem_singleton.mp hoffset)
  sorted := by
    simp only [List.map_append, List.map_cons, List.map_nil]
    refine List.pairwise_append.mpr ⟨h.sorted, List.pairwise_singleton _ _, ?_⟩
    intro offset hoffset last hlast
    exact List.mem_singleton.mp hlast ▸ h.within offset hoffset
  choices gather hgather := by
    refine h.choices gather ?_
    simpa [Knot.allGathers] using hgather

/-- A gather may follow a block of choices at the end. -/
theorem addGather (h : Placed knot) {gather : Gather} (hlast : endsInChoice knot = true)
    (hindex : gather.choiceIndex = knot.objects.length - 1) : Placed (addGather knot gather) where
  within := by
    rw [map_stitches_addGather knot fun _ _ => rfl, objects_addGather]
    exact h.within
  sorted := by
    rw [map_stitches_addGather knot fun _ _ => rfl]
    exact h.sorted
  choices := by
    rw [allGathers_addGather, objects_addGather]
    refine List.forall_mem_append.mpr ⟨h.choices, fun other hother => ?_⟩
    rw [List.mem_singleton.mp hother, hindex, ← List.getLast?_eq_getElem?]
    exact hlast

theorem extend (h : Placed knot) (part : KnotPart) (desk : Desk) :
    Placed ((Draft.extend knot part).run desk).1 := by
  cases part with
  | part p => exact h.addObjects _
  | parameter p => exact ⟨h.within, h.sorted, h.choices⟩
  | stitch name => exact h.addStitch name _
  | gather name =>
      show Placed (StateT.run (if endsInChoice knot = true then _ else _ : Work Knot) _).1
      split
      · next hlast => exact h.addGather hlast rfl
      · exact h

theorem extendAll (h : Placed knot) (parts : List KnotPart) (desk : Desk) :
    Placed ((Draft.extendAll knot parts).run desk).1 := by
  induction parts generalizing knot desk with
  | nil => exact h
  | cons part rest ih => exact ih (h.extend part desk) _

end Placed

theorem placed_knots {done : List Knot} {sections : List Section}
    (hown : (sections.flatMap Section.log).all Event.isOwn = true) (hdone : ∀ k ∈ done, Placed k)
    (desk : Desk) : ∀ k ∈ ((knots done sections).run desk).1, Placed k := by
  induction sections generalizing done desk with
  | nil => exact fun k hk => hdone k (List.mem_reverse.mp hk)
  | cons s rest ih =>
      rw [List.flatMap_cons, List.all_append, Bool.and_eq_true] at hown
      refine ih hown.2 ?_ _
      refine List.forall_mem_append.mpr ⟨fun k hk => ?_, hdone⟩
      cases s with
      | knot name isFunction parts =>
          rw [List.mem_singleton.mp hk]
          exact Placed.empty.extendAll parts _
      | ready k => cases hown.1
      | skippedId => cases hk

/-- Knots that are all right in themselves pass the checks unless a name is taken already. -/
theorem checkAll_cases {seen : List String} (hseen : seen.Nodup) {knots : List Knot}
    (h : ∀ k ∈ knots, k.check = .ok ()) :
    (Knot.checkAll seen knots = .ok () ∧ (knots.map (·.name) ++ seen).Nodup) ∨
      ∃ front knot rest, knots = front ++ knot :: rest ∧ (front.map (·.name) ++ seen).Nodup ∧
        knot.name ∈ front.map (·.name) ++ seen ∧
        Knot.checkAll seen knots = .error (.duplicateKnot knot.name) := by
  induction knots generalizing seen with
  | nil => exact .inl ⟨rfl, hseen⟩
  | cons knot rest ih =>
      obtain ⟨hknot, hrest⟩ := List.forall_mem_cons.mp h
      by_cases htaken : knot.name ∈ seen
      · refine .inr ⟨[], knot, rest, rfl, hseen, htaken, ?_⟩
        rw [Knot.checkAll, if_pos htaken]
      · have hcheck : Knot.checkAll seen (knot :: rest) =
            Knot.checkAll (knot.name :: seen) rest := by
          rw [Knot.checkAll, if_neg htaken, hknot]
          rfl
        have hmiddle (names : List String) :
            (names ++ knot.name :: seen).Perm (knot.name :: names ++ seen) := List.perm_middle
        rw [hcheck]
        rcases ih (List.nodup_cons.mpr ⟨htaken, hseen⟩) hrest with
          ⟨hok, hnames⟩ | ⟨front, other, back, rfl, hnames, hmem, herror⟩
        · exact .inl ⟨hok, (hmiddle _).nodup_iff.mp hnames⟩
        · exact .inr ⟨knot :: front, other, back, rfl, (hmiddle _).nodup_iff.mp hnames,
            (hmiddle _).mem_iff.mp hmem, herror⟩

/-! ## Scripts -/

/-- What drafting sections leads to. -/
def log (sections : List Section) : List Event := sections.flatMap Section.log

/-- The knots that are made of sections. -/
def built (sections : List Section) : List Knot := ((knots [] sections).run {}).1

/-- The first fault in a log. -/
def firstFault? (log : List Event) : Option StoryFault := log.findSome? Event.fault?

section Scripts

variable {sections : List Section}

theorem fault_knots (sections : List Section) :
    ((knots [] sections).run {}).2.fault = firstFault? (log sections) := by
  rw [(keepsTo_knots [] sections).desk, Desk.fault_after]
  rfl

/-- The first fault is the answer.  If there is none, the knots are put together. -/
theorem script_eq (sections : List Section) :
    script {} sections = (firstFault? (log sections)).elim
      ((Script.ofKnots (built sections)).mapError .structural) .error := by
  rw [← fault_knots]
  unfold script built
  obtain ⟨knots, desk⟩ := (knots [] sections).run {}
  cases hfault : desk.fault with
  | some fault => simp only [hfault, Option.elim_some]
  | none =>
      simp only [hfault, Option.elim_none]
      cases Script.ofKnots knots <;> rfl

/-- Without identities from elsewhere, and with no more identities drawn than there are, no identity
is used twice. -/
theorem nodup_ids (hown : (log sections).all Event.isOwn = true)
    (hdrawn : (log sections).countP Event.draws ≤ UInt32.size) :
    ((built sections).flatMap Knot.ids).Nodup := by
  obtain ⟨ids, hperm, hsublist⟩ := (keepsTo_knots [] sections).ids {}
  rw [← log, Desk.gains_eq _ hown] at hsublist
  exact hperm.nodup_iff.mp ((IdSource.nodup_takeMany _ hdrawn).sublist hsublist)

/-- Such knots make a script unless a name is taken already. -/
theorem ofKnots_cases {knots : List Knot} (h : ∀ k ∈ knots, k.check = .ok ()) :
    (∃ s, Script.ofKnots knots = .ok s ∧ s.knots = knots ∧ (knots.map (·.name)).Nodup) ∨
      ∃ front knot rest, knots = front ++ knot :: rest ∧ (front.map (·.name)).Nodup ∧
        knot.name ∈ front.map (·.name) ∧
        Script.ofKnots knots = .error (.duplicateKnot knot.name) := by
  unfold Script.ofKnots
  rcases checkAll_cases List.nodup_nil h with
    ⟨hok, hnames⟩ | ⟨front, knot, rest, hsplit, hnames, hmem, herror⟩
  · rw [List.append_nil] at hnames
    refine .inl ⟨{ knots := knots, sound := hok }, ?_, rfl, hnames⟩
    split
    · rfl
    · next hfault =>
      rw [hok] at hfault
      cases hfault
  · rw [List.append_nil] at hnames hmem
    refine .inr ⟨front, knot, rest, hsplit, hnames, hmem, ?_⟩
    split
    · next hfine =>
      rw [herror] at hfine
      cases hfine
    · next fault hfault =>
      rw [herror] at hfault
      cases hfault
      rfl

/-- What a draft comes to if its knots are all right in themselves: the first fault, a script, or a
name that is taken already. -/
theorem script_cases (hcheck : ∀ k ∈ built sections, k.check = .ok ()) :
    (∃ fault, firstFault? (log sections) = some fault ∧ script {} sections = .error fault) ∨
      firstFault? (log sections) = none ∧
        ((∃ s, script {} sections = .ok s ∧ s.knots = built sections ∧
            ((built sections).map (·.name)).Nodup) ∨
          ∃ front knot rest, built sections = front ++ knot :: rest ∧
            (front.map (·.name)).Nodup ∧ knot.name ∈ front.map (·.name) ∧
            script {} sections = .error (.structural (.duplicateKnot knot.name))) := by
  rw [script_eq]
  cases firstFault? (log sections) with
  | some fault => exact .inl ⟨fault, rfl, rfl⟩
  | none =>
      refine .inr ⟨rfl, (ofKnots_cases hcheck).imp ?_ ?_⟩
      · rintro ⟨s, hs, hrest⟩
        exact ⟨s, by rw [Option.elim_none, hs]; rfl, hrest⟩
      · rintro ⟨front, knot, rest, hsplit, hnames, hmem, herror⟩
        exact ⟨front, knot, rest, hsplit, hnames, hmem, by rw [Option.elim_none, herror]; rfl⟩

/-- A draft that brings no identities from elsewhere and draws no more of them than there are never
uses one twice, at whatever depth.  It fails with the first fault that was met, or because the name
of a knot is taken already; otherwise it gives its knots, and the checks on them find nothing. -/
theorem script_of_draft (sections : List Section) (hown : (log sections).all Event.isOwn = true)
    (hdrawn : (log sections).countP Event.draws ≤ UInt32.size) :
    ((built sections).flatMap Knot.ids).Nodup ∧
    (∀ k ∈ built sections, k.check = .ok ()) ∧
    (∀ fault, firstFault? (log sections) = some fault → script {} sections = .error fault) ∧
    (∀ fault, script {} sections = .error fault →
      firstFault? (log sections) = some fault ∨
        firstFault? (log sections) = none ∧ ∃ front knot rest,
          built sections = front ++ knot :: rest ∧ (front.map (·.name)).Nodup ∧
            knot.name ∈ front.map (·.name) ∧ fault = .structural (.duplicateKnot knot.name)) ∧
    ((∃ s, script {} sections = .ok s) ↔
      firstFault? (log sections) = none ∧ ((built sections).map (·.name)).Nodup) ∧
    ∀ s, script {} sections = .ok s →
      s.knots = built sections ∧ s.HasUniqueSections ∧ s.HasUniqueBlocks := by
  have hnodup := nodup_ids hown hdrawn
  have hcheck (k : Knot) (hk : k ∈ built sections) : k.check = .ok () :=
    (placed_knots hown (fun _ h => (List.not_mem_nil h).elim) {} k hk).check
  refine ⟨hnodup, hcheck, ?_⟩
  rcases script_cases hcheck with ⟨fault, hfault, hscript⟩ | ⟨hnone,
    ⟨s, hscript, hknots, hnames⟩ | ⟨front, knot, rest, hsplit, hnames, hmem, hscript⟩⟩
  · simp [hfault, hscript]
  · have hunique := Script.unique_of_nodup (hknots ▸ hnodup)
    simp [hnone, hscript, hknots, hnames, hunique]
  · have htwice : ¬((built sections).map (·.name)).Nodup := by
      intro hnames
      rw [hsplit, List.map_append, List.map_cons] at hnames
      exact (List.nodup_append.mp hnames).2.2 _ hmem _ List.mem_cons_self rfl
    refine ⟨by simp [hnone], fun fault hfault => ?_, by simp [hscript, htwice], by simp [hscript]⟩
    rw [hscript] at hfault
    cases hfault
    exact .inr ⟨hnone, front, knot, rest, hsplit, hnames, hmem, rfl⟩

end Scripts

/-- A draft with choices and sequences inside each other. -/
def cottage : List Section :=
  [.knot "start" false
      [.part (.text "A cottage."), .part .lineBreak,
        .part (.choice
          [[.label "Enter",
              .result [.sequence .cycle [[.text "Dim."], [.choice [[.label "Look"]]]],
                .divert .goto (some "start.hall") []]],
            [.label "Wait", .condition "patience > 0", .sticky]]),
        .gather "after", .stitch "hall",
        .part (.conditional (some "patience")
          [.when "0" [.choice [[.label "Leave"]]], .otherwise [.text "Hm."]])],
    .skippedId,
    .knot "sigh" true
      [.parameter { name := "depth", byRef := false },
        .part (.sequence .shuffle [[.text "Oh."], [.interpolation "depth"]])]]

/-- A draft with three things wrong: a gather without choices, an expression that breaks off, and a
name that is taken. -/
def ruin : List Section :=
  [.knot "start" false [.gather "early", .part (.logic "1 +")], .knot "start" false []]

theorem script_of_cottage :
    (∃ s, script {} cottage = .ok s ∧ s.HasUniqueSections ∧ s.HasUniqueBlocks ∧
      (s.knots.flatMap Knot.ids).map (·.number.toNat) = [0, 5, 4, 1, 2, 3, 6, 8, 9]) ∧
    script {} ruin = .error (.structural (.invalidGather "start" "early")) := by
  have hcottage : ((log cottage).all Event.isOwn, (log cottage).countP Event.draws,
      (firstFault? (log cottage)).isNone, (built cottage).map (·.name),
      ((built cottage).flatMap Knot.ids).map (·.number.toNat)) =
      (true, 10, true, ["start", "sigh"], [0, 5, 4, 1, 2, 3, 6, 8, 9]) := by decide +kernel
  have hruin : ((log ruin).all Event.isOwn, (log ruin).countP Event.draws) = (true, 3) := by
    decide +kernel
  simp only [Prod.mk.injEq] at hcottage hruin
  obtain ⟨hown, hdrawn, hfault, hnames, hids⟩ := hcottage
  constructor
  · obtain ⟨_, _, _, _, hok, hknots⟩ := script_of_draft cottage hown (by rw [hdrawn]; decide)
    obtain ⟨s, hs⟩ := hok.mpr ⟨Option.isNone_iff_eq_none.mp hfault, by rw [hnames]; decide⟩
    obtain ⟨hbuilt, hsections, hblocks⟩ := hknots s hs
    exact ⟨s, hs, hsections, hblocks, hbuilt ▸ hids⟩
  · exact (script_of_draft ruin hruin.1 (by rw [hruin.2]; decide)).2.2.1 _ rfl

end Skein.Draft
