import Skein.Proofs.Story.DocumentRecords
import Skein.Proofs.Story.Parts

set_option autoImplicit false

/-!
# Story: the document form is read as it was written

A story is written as a document, and the document as a text.  Each kind of record is read as it
is written; for nodes this goes down through the content that they hold, whose documents have
fewer levels.  Places in the objects of a knot are the only numbers of a story that have no bound
of their own: the checks on knots keep them within the objects.
-/

namespace Skein

namespace Document

/-! ## Records without content -/

/-- What is written of a divert. -/
def divertSlots (d : Divert) : Slots where
  list :=
    [("kind", some (.string (divertName d.kind))),
     ("target", some ((d.target.map Json.string).getD .null)),
     ("args", unlessNone (d.args.map ofExpression))]

theorem ofDivert_eq (d : Divert) : ofDivert d = (divertSlots d).object := by
  rw [ofDivert, unlessEmpty_eq]
  rfl

theorem divert_ofDivert {d : Divert} (hargs : ∀ e ∈ d.args, e.IsRead) :
    divert (.ofJson (ofDivert d)) = .ok d := by
  have htarget :
      nullable string (.ofJson ((d.target.map Json.string).getD .null)) = .ok d.target := by
    cases d.target <;> rfl
  refine (divertSlots d).reads (ofDivert_eq d)
    (Cell.seq_value (Cell.seq_value (Cell.map_value ?kind) ?target) ?args)
  case kind => exact Slots.required (by simp [divertSlots]) (plain_divertName d.kind)
  case target => exact Slots.optional (by simp [divertSlots]) htarget
  case args =>
    exact Slots.defaulting_many (by simp [divertSlots])
      fun e he => expression_ofExpression (hargs e he)

/-- What is written of the declaration of a variable. -/
def globalSlots (g : GlobalDeclaration) : Slots where
  list :=
    [("name", some (.string g.name)), ("init", some (ofExpression g.init)),
     ("constant", some (.bool g.constant))]

theorem global_ofGlobal {g : GlobalDeclaration} (hinit : g.init.IsRead) :
    global (.ofJson (ofGlobal g)) = .ok g := by
  refine (globalSlots g).reads rfl
    (Cell.seq_value (Cell.seq_value (Cell.map_value ?name) ?init) ?constant)
  case name => exact Slots.required (by simp [globalSlots]) (string_ofJson g.name)
  case init => exact Slots.required (by simp [globalSlots]) (expression_ofExpression hinit)
  case constant => exact Slots.defaulting (by simp [globalSlots]) (bool_ofJson g.constant)

/-- What is written of an item of a list declaration. -/
def listEntrySlots (entry : ListEntry) : Slots where
  list :=
    [("label", some (.string entry.label)), ("value", some (.int entry.value.toInt)),
     ("selected", some (.bool entry.selected))]

theorem listEntry_ofListEntry (entry : ListEntry) :
    listEntry (.ofJson (ofListEntry entry)) = .ok entry := by
  refine (listEntrySlots entry).reads rfl
    (Cell.seq_value (Cell.seq_value (Cell.map_value ?label) ?value) ?selected)
  case label => exact Slots.required (by simp [listEntrySlots]) (string_ofJson entry.label)
  case value => exact Slots.required (by simp [listEntrySlots]) (int64_ofInt entry.value)
  case selected =>
    exact Slots.defaulting (by simp [listEntrySlots]) (bool_ofJson entry.selected)

/-- What is written of a list declaration. -/
def listSlots (l : ListDeclaration) : Slots where
  list := [("name", some (.string l.name)), ("entries", some (.array (l.entries.map ofListEntry)))]

theorem list_ofList (l : ListDeclaration) : list (.ofJson (ofList l)) = .ok l := by
  refine (listSlots l).reads rfl (Cell.seq_value (Cell.map_value ?name) ?entries)
  case name => exact Slots.required (by simp [listSlots]) (string_ofJson l.name)
  case entries =>
    exact Slots.required (by simp [listSlots])
      (many_map fun entry _ => listEntry_ofListEntry entry)

/-! ## Nodes -/

/-- What is written of a choice. -/
def entrySlots (entry : Entry) : Slots where
  list :=
    [("text", some (ofContent entry.text)), ("result", some (ofContent entry.result)),
     ("sticky", some (.bool entry.sticky)),
     ("conditions", unlessNone (entry.conditions.map ofExpression)),
     ("fallback", some (.bool entry.fallback)),
     ("immediately_continue", some (.bool entry.immediate))]

/-- What is written of a branch. -/
def branchSlots (branch : Branch) : Slots where
  list :=
    [("condition", some (ofExpression branch.condition)),
     ("content", some (ofContent branch.content))]

theorem ofNodes_eq (done : List Json) (content : Content) :
    ofNodes done content = done.reverse ++ content.map ofNode := by
  induction content generalizing done with
  | nil => simp [ofNodes]
  | cons node rest ih => rw [ofNodes, ih, List.reverse_cons, List.append_assoc]; rfl

theorem ofContent_eq (content : Content) : ofContent content = .array (content.map ofNode) := by
  rw [ofContent, ofNodes_eq]
  rfl

theorem ofEntries_eq (done : List Json) (entries : List Entry) :
    ofEntries done entries =
      done.reverse ++ entries.map fun entry => (entrySlots entry).object := by
  induction entries generalizing done with
  | nil => simp [ofEntries]
  | cons entry rest ih =>
      obtain ⟨shown, result, sticky, conditions, fallback, immediate⟩ := entry
      rw [ofEntries, ih, List.reverse_cons, List.append_assoc, unlessEmpty_eq, List.map_cons]
      unfold entrySlots
      dsimp only
      generalize unlessNone (conditions.map ofExpression) = conditions?
      cases conditions? <;> rfl

theorem ofBranches_eq (done : List Json) (branches : List Branch) :
    ofBranches done branches =
      done.reverse ++ branches.map fun branch => (branchSlots branch).object := by
  induction branches generalizing done with
  | nil => simp [ofBranches]
  | cons branch rest ih =>
      obtain ⟨condition, content⟩ := branch
      rw [ofBranches, ih, List.reverse_cons, List.append_assoc]
      rfl

theorem ofGroups_eq (done : List Json) (groups : List Content) :
    ofGroups done groups = done.reverse ++ groups.map ofContent := by
  induction groups generalizing done with
  | nil => simp [ofGroups]
  | cons group rest ih => rw [ofGroups, ih, List.reverse_cons, List.append_assoc]; rfl

theorem ofOptional_eq (content? : Option Content) :
    ofOptional content? = content?.map ofContent := by
  cases content? <;> rfl

/-- What is written of a block of choices. -/
def choiceSlots (id : NodeId) (entries : List Entry) : Slots where
  list :=
    [("id", some (ofId id)),
     ("entries", some (.array (entries.map fun entry => (entrySlots entry).object)))]

/-- What is written of a conditional. -/
def conditionalSlots (subject : Option Expression) (branches : List Branch)
    (otherwise : Option Content) : Slots where
  list :=
    [("switch", subject.map ofExpression),
     ("branches", some (.array (branches.map fun branch => (branchSlots branch).object))),
     ("otherwise", otherwise.map ofContent)]

/-- What is written of a sequence. -/
def sequenceSlots (id : NodeId) (kind : SequenceKind) (groups : List Content) : Slots where
  list :=
    [("id", some (ofId id)), ("kind", some (.string (sequenceName kind))),
     ("groups", some (.array (groups.map ofContent)))]

theorem ofNode_choice (id : NodeId) (entries : List Entry) :
    ofNode (.choice id entries) = tagged "choice" (choiceSlots id entries).object := by
  rw [ofNode, ofEntries_eq]
  rfl

theorem ofNode_conditional (subject : Option Expression) (branches : List Branch)
    (otherwise : Option Content) :
    ofNode (.conditional subject branches otherwise) =
      tagged "conditional" (conditionalSlots subject branches otherwise).object := by
  rw [ofNode, ofBranches_eq, ofOptional_eq, unlessMissing_eq, unlessMissing_eq]
  unfold conditionalSlots Slots.object
  cases subject <;> rfl

theorem ofNode_sequence (id : NodeId) (kind : SequenceKind) (groups : List Content) :
    ofNode (.sequence id kind groups) =
      tagged "sequence" (sequenceSlots id kind groups).object := by
  rw [ofNode, ofGroups_eq]
  rfl

section Content

variable {content : Outline → Reads Content}

theorem entry_object {e : Entry} (htext : content (.ofJson (ofContent e.text)) = .ok e.text)
    (hresult : content (.ofJson (ofContent e.result)) = .ok e.result)
    (hconditions : ∀ c ∈ e.conditions, c.IsRead) :
    entry content (.ofJson (entrySlots e).object) = .ok e := by
  obtain ⟨shown, result, sticky, conditions, fallback, immediate⟩ := e
  refine (entrySlots ⟨shown, result, sticky, conditions, fallback, immediate⟩).reads rfl
    (Cell.seq_value (Cell.seq_value (Cell.seq_value (Cell.seq_value (Cell.seq_value
      (Cell.map_value ?text) ?result) ?sticky) ?conditions) ?fallback) ?immediate)
  case text => exact Slots.required (by simp [entrySlots]) htext
  case result => exact Slots.required (by simp [entrySlots]) hresult
  case sticky => exact Slots.defaulting (by simp [entrySlots]) (bool_ofJson sticky)
  case conditions =>
    exact Slots.defaulting_many (by simp [entrySlots])
      fun c hc => expression_ofExpression (hconditions c hc)
  case fallback => exact Slots.defaulting (by simp [entrySlots]) (bool_ofJson fallback)
  case immediate => exact Slots.defaulting (by simp [entrySlots]) (bool_ofJson immediate)

theorem branch_object {b : Branch} (hcondition : b.condition.IsRead)
    (hcontent : content (.ofJson (ofContent b.content)) = .ok b.content) :
    branch content (.ofJson (branchSlots b).object) = .ok b := by
  obtain ⟨condition, inner⟩ := b
  refine (branchSlots ⟨condition, inner⟩).reads rfl
    (Cell.seq_value (Cell.map_value ?condition) ?content)
  case condition =>
    exact Slots.required (by simp [branchSlots]) (expression_ofExpression hcondition)
  case content => exact Slots.required (by simp [branchSlots]) hcontent

theorem choice_object {number : NodeId} {entries : List Entry}
    (hparts : ∀ part ∈ (Node.choice number entries).parts,
      content (.ofJson (ofContent part)) = .ok part)
    (hread : ∀ e ∈ (Node.choice number entries).expressions, e.IsRead) :
    choice content (.ofJson (choiceSlots number entries).object) =
      .ok (.choice number entries) := by
  refine (choiceSlots number entries).reads rfl (Cell.seq_value (Cell.map_value ?id) ?entries)
  case id => exact Slots.required (by simp [choiceSlots]) (id_ofId number)
  case entries =>
    have hentries : ∀ e ∈ entries, entry content (.ofJson (entrySlots e).object) = .ok e := by
      intro e he
      refine entry_object (hparts _ ?_) (hparts _ ?_) fun c hc => hread c ?_
      · exact List.mem_flatMap.mpr ⟨e, he, by simp⟩
      · exact List.mem_flatMap.mpr ⟨e, he, by simp⟩
      · exact List.mem_flatMap.mpr ⟨e, he, hc⟩
    exact Slots.required (by simp [choiceSlots]) (many_map hentries)

theorem conditional_object {subject : Option Expression} {branches : List Branch}
    {otherwise : Option Content}
    (hparts : ∀ part ∈ (Node.conditional subject branches otherwise).parts,
      content (.ofJson (ofContent part)) = .ok part)
    (hread : ∀ e ∈ (Node.conditional subject branches otherwise).expressions, e.IsRead) :
    conditional content (.ofJson (conditionalSlots subject branches otherwise).object) =
      .ok (.conditional subject branches otherwise) := by
  refine (conditionalSlots subject branches otherwise).reads rfl
    (Cell.seq_value (Cell.seq_value (Cell.map_value ?switch) ?branches) ?otherwise)
  case switch =>
    have hsubject : ∀ e ∈ subject,
        nullable expression (.ofJson (ofExpression e)) = .ok (some e) := by
      intro e he
      have hmem := List.mem_append_left (branches.map (·.condition)) (Option.mem_toList.mpr he)
      exact congrArg (some <$> ·) (expression_ofExpression (hread e hmem))
    exact Slots.defaulting_nullable (by simp [conditionalSlots]) hsubject
  case branches =>
    have hbranches : ∀ b ∈ branches, branch content (.ofJson (branchSlots b).object) = .ok b := by
      intro b hb
      refine branch_object (hread _ ?_) (hparts _ ?_)
      · exact List.mem_append_right _ (List.mem_map.mpr ⟨b, hb, rfl⟩)
      · exact List.mem_append_right _ (List.mem_map.mpr ⟨b, hb, rfl⟩)
    exact Slots.required (by simp [conditionalSlots]) (many_map hbranches)
  case otherwise =>
    have hotherwise : ∀ part ∈ otherwise,
        nullable content (.ofJson (ofContent part)) = .ok (some part) := by
      intro part hpart
      have hmem := List.mem_append_left (branches.map (·.content)) (Option.mem_toList.mpr hpart)
      exact congrArg (some <$> ·) (hparts part hmem)
    exact Slots.defaulting_nullable (by simp [conditionalSlots]) hotherwise

theorem sequence_object {number : NodeId} {kind : SequenceKind} {groups : List Content}
    (hparts : ∀ part ∈ groups, content (.ofJson (ofContent part)) = .ok part) :
    sequence content (.ofJson (sequenceSlots number kind groups).object) =
      .ok (.sequence number kind groups) := by
  refine (sequenceSlots number kind groups).reads rfl
    (Cell.seq_value (Cell.seq_value (Cell.map_value ?id) ?kind) ?groups)
  case id => exact Slots.required (by simp [sequenceSlots]) (id_ofId number)
  case kind => exact Slots.required (by simp [sequenceSlots]) (plain_sequenceName kind)
  case groups => exact Slots.required (by simp [sequenceSlots]) (many_map hparts)

theorem nodeOf_tagged {name : String} {json : Json} {n : Node} (hname : bareNode? name = none)
    (h : payload content name (.ofJson json) = .ok n) :
    nodeOf content (.ofJson (tagged name json)) = .ok n := by
  rw [tagged, Outline.ofJson_object]
  simp only [nodeOf, variant, List.map_cons, hname, h]
  rfl

/-- A node is read as it is written if the content that it holds is. -/
theorem nodeOf_ofNode {n : Node}
    (hparts : ∀ part ∈ n.parts, content (.ofJson (ofContent part)) = .ok part)
    (hread : ∀ e ∈ n.expressions, e.IsRead) : nodeOf content (.ofJson (ofNode n)) = .ok n := by
  cases n with
  | lineBreak | glue => rfl
  | text s | tag s => exact nodeOf_tagged rfl rfl
  | divert d => exact nodeOf_tagged rfl (congrArg (Node.divert <$> ·) (divert_ofDivert hread))
  | choice number entries =>
      rw [ofNode_choice]
      exact nodeOf_tagged rfl (choice_object hparts hread)
  | marker m => exact nodeOf_tagged rfl (congrArg (Node.marker <$> ·) (plain_markerName m))
  | interpolation e =>
      have he := expression_ofExpression (hread e List.mem_cons_self)
      exact nodeOf_tagged rfl (congrArg (Node.interpolation <$> ·) he)
  | conditional subject branches otherwise =>
      rw [ofNode_conditional]
      exact nodeOf_tagged rfl (conditional_object hparts hread)
  | sequence number kind groups =>
      rw [ofNode_sequence]
      exact nodeOf_tagged rfl (sequence_object hparts)
  | global g =>
      have hg := global_ofGlobal (hread g.init List.mem_cons_self)
      exact nodeOf_tagged rfl (congrArg (Node.global <$> ·) hg)
  | logic e =>
      have he := expression_ofExpression (hread e List.mem_cons_self)
      exact nodeOf_tagged rfl (congrArg (Node.logic <$> ·) he)
  | list l => exact nodeOf_tagged rfl (congrArg (Node.list <$> ·) (list_ofList l))

end Content

/-! ## Levels -/

theorem height_lt_tagged (name : String) (json : Json) :
    (Outline.ofJson json).height < (Outline.ofJson (tagged name json)).height :=
  Outline.height_lt_of_mem_object List.mem_cons_self

/-- Content has fewer levels than a node that holds it. -/
theorem height_part_lt {n : Node} {part : Content} (hpart : part ∈ n.parts) :
    (Outline.ofJson (ofContent part)).height < (Outline.ofJson (ofNode n)).height := by
  cases n with
  | choice number entries =>
      obtain ⟨entry, hentry, hpart⟩ := List.mem_flatMap.mp hpart
      rw [ofNode_choice]
      calc (Outline.ofJson (ofContent part)).height
        _ < (Outline.ofJson (entrySlots entry).object).height := by
            simp only [List.mem_cons, List.not_mem_nil, or_false] at hpart
            rcases hpart with rfl | rfl
            · exact Slots.height_lt "text" (by simp [entrySlots])
            · exact Slots.height_lt "result" (by simp [entrySlots])
        _ < (Outline.ofJson (.array (entries.map fun entry => (entrySlots entry).object))).height :=
            Outline.height_lt_of_mem_array (List.mem_map.mpr ⟨entry, hentry, rfl⟩)
        _ < (Outline.ofJson (choiceSlots number entries).object).height :=
            Slots.height_lt "entries" (by simp [choiceSlots])
        _ < _ := height_lt_tagged _ _
  | conditional subject branches otherwise =>
      rw [ofNode_conditional]
      refine Nat.lt_trans ?_ (height_lt_tagged _ _)
      rcases List.mem_append.mp hpart with hpart | hpart
      · refine Slots.height_lt "otherwise" ?_
        simp [conditionalSlots, Option.mem_toList.mp hpart]
      · obtain ⟨branch, hbranch, rfl⟩ := List.mem_map.mp hpart
        calc (Outline.ofJson (ofContent branch.content)).height
          _ < (Outline.ofJson (branchSlots branch).object).height :=
              Slots.height_lt "content" (by simp [branchSlots])
          _ < (Outline.ofJson
                (.array (branches.map fun branch => (branchSlots branch).object))).height :=
              Outline.height_lt_of_mem_array (List.mem_map.mpr ⟨branch, hbranch, rfl⟩)
          _ < _ := Slots.height_lt "branches" (by simp [conditionalSlots])
  | sequence number kind groups =>
      rw [ofNode_sequence]
      calc (Outline.ofJson (ofContent part)).height
        _ < (Outline.ofJson (.array (groups.map ofContent))).height :=
            Outline.height_lt_of_mem_array (List.mem_map.mpr ⟨part, hpart, rfl⟩)
        _ < (Outline.ofJson (sequenceSlots number kind groups).object).height :=
            Slots.height_lt "groups" (by simp [sequenceSlots])
        _ < _ := height_lt_tagged _ _
  | _ => cases hpart

theorem height_node_lt {n : Node} {c : Content} (hn : n ∈ c) :
    (Outline.ofJson (ofNode n)).height < (Outline.ofJson (ofContent c)).height := by
  rw [ofContent_eq]
  exact Outline.height_lt_of_mem_array (List.mem_map.mpr ⟨n, hn, rfl⟩)

/-- A node is read as it is written, in any document that has at least its levels. -/
theorem node_ofNode : (n : Node) → (∀ e ∈ Content.nodeExpressions n, e.IsRead) → (bound : Nat) →
    (Outline.ofJson (ofNode n)).height ≤ bound → node bound (.ofJson (ofNode n)) = .ok n := by
  refine Node.Inherits.all fun n hinner hread bound hbound => ?_
  obtain ⟨bound, rfl⟩ : ∃ less, bound = less + 1 :=
    Nat.exists_eq_succ_of_ne_zero (by have := Outline.height_pos (.ofJson (ofNode n)); omega)
  refine nodeOf_ofNode (fun part hpart => ?_) fun e he =>
    hread e (Content.mem_nodeExpressions.mpr (.inl he))
  rw [ofContent_eq]
  refine many_map fun inner hmem => hinner part hpart inner hmem (fun e he => ?_) bound ?_
  · refine hread e (Content.mem_nodeExpressions.mpr (.inr ⟨part, hpart, ?_⟩))
    rw [Content.expressions_eq]
    exact List.mem_flatMap.mpr ⟨inner, hmem, he⟩
  · have hlevel := height_node_lt hmem
    have hlevels := height_part_lt hpart
    omega

theorem content_ofContent {c : Content} (hread : ∀ e ∈ Content.expressions c, e.IsRead) :
    content (.ofJson (ofContent c)) = .ok c := by
  rw [content, ofContent_eq]
  refine many_map fun n hn => node_ofNode n (fun e he => hread e ?_) _ ?_
  · rw [Content.expressions_eq]
    exact List.mem_flatMap.mpr ⟨n, hn, he⟩
  · exact Nat.le_of_lt (Outline.height_lt_of_mem_array (List.mem_map.mpr ⟨n, hn, rfl⟩))

/-! ## Knots -/

/-- What is written of a parameter. -/
def parameterSlots (p : Parameter) : Slots where
  list := [("name", some (.string p.name)), ("by_ref", some (.bool p.byRef))]

theorem parameter_ofParameter (p : Parameter) : parameter (.ofJson (ofParameter p)) = .ok p := by
  refine (parameterSlots p).reads rfl (Cell.seq_value (Cell.map_value ?name) ?byRef)
  case name => exact Slots.required (by simp [parameterSlots]) (string_ofJson p.name)
  case byRef => exact Slots.defaulting (by simp [parameterSlots]) (bool_ofJson p.byRef)

/-- What is written of a gather. -/
def gatherSlots (g : Gather) : Slots where
  list :=
    [("name", some (.string g.name)), ("uuid", some (ofId g.id)),
     ("nesting_level", some (ofNat g.level.toNat)), ("choice_index", some (ofNat g.choiceIndex))]

theorem gather_ofGather {g : Gather} (hplace : g.choiceIndex < UInt64.size) :
    gather (.ofJson (ofGather g)) = .ok g := by
  refine (gatherSlots g).reads rfl
    (Cell.seq_value (Cell.seq_value (Cell.seq_value (Cell.map_value ?name) ?id) ?level) ?place)
  case name => exact Slots.required (by simp [gatherSlots]) (string_ofJson g.name)
  case id => exact Slots.required (by simp [gatherSlots]) (id_ofId g.id)
  case level => exact Slots.required (by simp [gatherSlots]) (level_ofNat g.level)
  case place => exact Slots.required (by simp [gatherSlots]) (natBelow_ofNat hplace)

/-- What is written of a stitch. -/
def stitchSlots (s : Stitch) : Slots where
  list :=
    [("name", some (.string s.name)), ("uuid", some (ofId s.id)),
     ("offset", some (ofNat s.offset)), ("gather_points", unlessNone (s.gathers.map ofGather))]

theorem ofStitch_eq (s : Stitch) : ofStitch s = (stitchSlots s).object := by
  rw [ofStitch, unlessEmpty_eq]
  rfl

theorem stitch_ofStitch {s : Stitch} (hoffset : s.offset < UInt64.size)
    (hgathers : ∀ g ∈ s.gathers, g.choiceIndex < UInt64.size) :
    stitch (.ofJson (ofStitch s)) = .ok s := by
  refine (stitchSlots s).reads (ofStitch_eq s)
    (Cell.seq_value (Cell.seq_value (Cell.seq_value (Cell.map_value ?name) ?id) ?offset) ?gathers)
  case name => exact Slots.required (by simp [stitchSlots]) (string_ofJson s.name)
  case id => exact Slots.required (by simp [stitchSlots]) (id_ofId s.id)
  case offset => exact Slots.required (by simp [stitchSlots]) (natBelow_ofNat hoffset)
  case gathers =>
    exact Slots.defaulting_many (by simp [stitchSlots]) fun g hg => gather_ofGather (hgathers g hg)

/-- What is written of a knot. -/
def knotSlots (k : Knot) : Slots where
  list :=
    [("name", some (.string k.name)), ("uuid", some (ofId k.id)),
     ("parameters", unlessNone (k.parameters.map ofParameter)),
     ("objects", some (ofContent k.objects)),
     ("stitches", unlessNone (k.stitches.map ofStitch)),
     ("gather_points", unlessNone (k.gathers.map ofGather)),
     ("is_function", some (.bool k.isFunction))]

theorem ofKnot_eq (k : Knot) : ofKnot k = (knotSlots k).object := by
  rw [ofKnot, unlessEmpty_eq, unlessEmpty_eq, unlessEmpty_eq]
  unfold knotSlots Slots.object
  dsimp only
  generalize unlessNone (k.parameters.map ofParameter) = parameters?
  generalize unlessNone (k.stitches.map ofStitch) = stitches?
  generalize unlessNone (k.gathers.map ofGather) = gathers?
  cases parameters? <;> cases stitches? <;> cases gathers? <;> rfl

theorem knot_ofKnot {k : Knot} (hread : ∀ e ∈ Content.expressions k.objects, e.IsRead)
    (hstitches : ∀ s ∈ k.stitches, s.offset < UInt64.size)
    (hgathers : ∀ g ∈ k.allGathers, g.choiceIndex < UInt64.size) :
    knot (.ofJson (ofKnot k)) = .ok k := by
  refine (knotSlots k).reads (ofKnot_eq k)
    (Cell.seq_value (Cell.seq_value (Cell.seq_value (Cell.seq_value (Cell.seq_value (Cell.seq_value
      (Cell.map_value ?name) ?id) ?parameters) ?objects) ?stitches) ?gathers) ?isFunction)
  case name => exact Slots.required (by simp [knotSlots]) (string_ofJson k.name)
  case id => exact Slots.required (by simp [knotSlots]) (id_ofId k.id)
  case parameters =>
    exact Slots.defaulting_many (by simp [knotSlots]) fun p _ => parameter_ofParameter p
  case objects => exact Slots.required (by simp [knotSlots]) (content_ofContent hread)
  case stitches =>
    have hstitch : ∀ s ∈ k.stitches, stitch (.ofJson (ofStitch s)) = .ok s := by
      intro s hs
      refine stitch_ofStitch (hstitches s hs) fun g hg => hgathers g ?_
      exact List.mem_append_right _ (List.mem_flatMap.mpr ⟨s, hs, hg⟩)
    exact Slots.defaulting_many (by simp [knotSlots]) hstitch
  case gathers =>
    refine Slots.defaulting_many (by simp [knotSlots]) fun g hg => gather_ofGather (hgathers g ?_)
    exact List.mem_append_left _ hg
  case isFunction => exact Slots.defaulting (by simp [knotSlots]) (bool_ofJson k.isFunction)

/-! ## Documents that can be written -/

@[simp] theorem writable_ofDivert (d : Divert) : (ofDivert d).Writable := by
  rw [ofDivert_eq]
  cases htarget : d.target <;> simp [divertSlots, htarget]

@[simp] theorem writable_ofListEntry (entry : ListEntry) : (ofListEntry entry).Writable := by
  have hlower := entry.value.le_toInt
  have hupper := entry.value.toInt_lt
  have hvalue : (Json.int entry.value.toInt).Writable := by
    refine .int ?_ ?_
    · rw [Int64.toInt_minValue]
      omega
    · show entry.value.toInt < 18446744073709551616
      omega
  simpa [ofListEntry] using hvalue

theorem writable_ofNode : (n : Node) → (ofNode n).Writable := by
  refine Node.Inherits.all fun n hinner => ?_
  have hparts : ∀ part ∈ n.parts, (ofContent part).Writable := by
    intro part hpart
    rw [ofContent_eq, Json.writable_array_iff, List.forall_mem_map]
    exact hinner part hpart
  cases n with
  | choice number entries =>
      have hentries : ∀ entry ∈ entries,
          (ofContent entry.text).Writable ∧ (ofContent entry.result).Writable := by
        intro entry hentry
        refine ⟨hparts _ ?_, hparts _ ?_⟩
        · exact List.mem_flatMap.mpr ⟨entry, hentry, by simp⟩
        · exact List.mem_flatMap.mpr ⟨entry, hentry, by simp⟩
      rw [ofNode_choice]
      simpa [tagged, choiceSlots, entrySlots] using hentries
  | conditional subject branches otherwise =>
      have hbranches : ∀ branch ∈ branches, (ofContent branch.content).Writable := by
        intro branch hbranch
        exact hparts _ (List.mem_append_right _ (List.mem_map.mpr ⟨branch, hbranch, rfl⟩))
      have hotherwise : ∀ part, otherwise = some part → (ofContent part).Writable := by
        intro part hpart
        exact hparts _ (List.mem_append_left _ (Option.mem_toList.mpr hpart))
      rw [ofNode_conditional]
      simpa [tagged, conditionalSlots, branchSlots] using And.intro hbranches hotherwise
  | sequence number kind groups =>
      have hgroups : ∀ group ∈ groups, (ofContent group).Writable := hparts
      rw [ofNode_sequence]
      simpa [tagged, sequenceSlots] using hgroups
  | _ => simp [ofNode, tagged, ofGlobal, ofList]

theorem writable_ofContent (c : Content) : (ofContent c).Writable := by
  rw [ofContent_eq, Json.writable_array_iff, List.forall_mem_map]
  exact fun n _ => writable_ofNode n

theorem writable_ofGather {g : Gather} (hplace : g.choiceIndex < UInt64.size) :
    (ofGather g).Writable := by
  have hlevel : g.level.toNat < UInt64.size := Nat.lt_trans g.level.toNat_lt (by decide)
  simp [ofGather, hplace, hlevel]

theorem writable_ofStitch {s : Stitch} (hoffset : s.offset < UInt64.size)
    (hgathers : ∀ g ∈ s.gathers, g.choiceIndex < UInt64.size) : (ofStitch s).Writable := by
  have hall : ∀ g ∈ s.gathers, (ofGather g).Writable :=
    fun g hg => writable_ofGather (hgathers g hg)
  rw [ofStitch_eq]
  simpa [stitchSlots, hoffset] using hall

theorem writable_ofKnot {k : Knot} (hstitches : ∀ s ∈ k.stitches, s.offset < UInt64.size)
    (hgathers : ∀ g ∈ k.allGathers, g.choiceIndex < UInt64.size) : (ofKnot k).Writable := by
  have hparameters : ∀ p ∈ k.parameters, (ofParameter p).Writable := by
    intro p _
    simp [ofParameter]
  have hknot : ∀ g ∈ k.gathers, (ofGather g).Writable := by
    intro g hg
    exact writable_ofGather (hgathers g (List.mem_append_left _ hg))
  have hall : ∀ s ∈ k.stitches, (ofStitch s).Writable := by
    intro s hs
    refine writable_ofStitch (hstitches s hs) fun g hg => hgathers g ?_
    exact List.mem_append_right _ (List.mem_flatMap.mpr ⟨s, hs, hg⟩)
  rw [ofKnot_eq]
  simpa [knotSlots, writable_ofContent] using ⟨hparameters, hall, hknot⟩

/-! ## Stories -/

section Stories

variable {s : Script} (hlength : ∀ k ∈ s.knots, k.objects.length < UInt64.size)

include hlength

/-- The stitches and gathers of a story are at places that can be written. -/
theorem places_lt {k : Knot} (hk : k ∈ s.knots) :
    (∀ t ∈ k.stitches, t.offset < UInt64.size) ∧
      ∀ g ∈ k.allGathers, g.choiceIndex < UInt64.size := by
  have hordered := Knot.ordered_of_check (Knot.check_of_checkAll s.sound k hk)
  refine ⟨fun t ht => ?_, fun g hg => ?_⟩
  · exact Nat.lt_of_le_of_lt (hordered.within t ht) (hlength k hk)
  · exact Nat.lt_trans (hordered.follows g hg) (hlength k hk)

theorem writable_ofScript : (ofScript s).Writable := by
  rw [ofScript, Json.writable_array_iff, List.forall_mem_map]
  intro k hk
  obtain ⟨hstitches, hgathers⟩ := places_lt hlength hk
  exact writable_ofKnot hstitches hgathers

/-- The document of a story is read as that story. -/
theorem script_ofScript (hread : ∀ e ∈ s.expressions, e.IsRead) :
    script (.ofJson (ofScript s)) = .ok s := by
  have hknots : many knot (.ofJson (ofScript s)) = .ok s.knots := by
    refine many_map fun k hk => ?_
    obtain ⟨hstitches, hgathers⟩ := places_lt hlength hk
    exact knot_ofKnot (fun e he => hread e (List.mem_flatMap.mpr ⟨k, hk, he⟩)) hstitches hgathers
  unfold script
  rw [hknots]
  simp only [bind, Except.bind, Script.ofKnots_knots]
  rfl

end Stories

/-- A story whose expressions were read with no names known is read again from its document, at
every depth of content, with every token of every expression and the order of the tokens the same;
and it is read from the text of the document, if its containers are not nested too deep for any
text. -/
theorem read_write {s : Script} (hread : ∀ e ∈ s.expressions, e.IsRead)
    (hlength : ∀ k ∈ s.knots, k.objects.length < UInt64.size) :
    script (.ofJson (ofScript s)) = .ok s ∧
      ((ofScript s).depth ≤ mostLevels → read (write s) = .ok s) := by
  have hscript := script_ofScript hlength hread
  refine ⟨hscript, fun hlevels => ?_⟩
  have houtline := (writable_ofScript hlength).outline_pretty hlevels
  unfold read write
  rw [houtline]
  dsimp only
  rw [hscript]
  rfl

/-- `n+m`, as it is read with white space around it. -/
def total : Expression :=
  { source := "n+m", tokens := [.ident "n", .operator .add .between, .ident "m"]
    order := [0, 2, 1] }

/-- A story with a quoted line, a list item below zero, a return without a target, and a conditional
in the alternatives of the result of a choice, with a gather and a stitch behind it. -/
def inn : Script where
  knots :=
    [{ name := "inn", id := ⟨1⟩, parameters := [⟨"n", true⟩]
       objects :=
         [.text "\"Rooms\"\t\x01", .lineBreak, .global ⟨"beds", total, false⟩,
          .list ⟨"Moods", [⟨"sour", -3, true⟩]⟩,
          .choice ⟨2⟩
            [⟨[.text "Stay", .marker .stop],
              [.sequence ⟨3⟩ .shuffleOnce
                [[.conditional (some total)
                    [⟨total, [.interpolation total, .glue]⟩] (some [])], []]],
              true, [total], false, true⟩],
          .divert ⟨.tunnelReturn, none, []⟩]
       stitches := [⟨"stairs", ⟨4⟩, 6, []⟩], gathers := [⟨"", ⟨5⟩, 1, 4⟩], isFunction := false },
     { name := "cellar", id := ⟨6⟩, parameters := [], objects := [], stitches := [], gathers := []
       isFunction := true }]
  sound := rfl

/-- The inn is read as it was written, from its document and from its text. -/
theorem read_write_inn :
    (∀ e ∈ inn.expressions, e.IsRead) ∧ (ofScript inn).depth = 18 ∧
      script (.ofJson (ofScript inn)) = .ok inn ∧ read (write inn) = .ok inn := by
  have hread : ∀ e ∈ inn.expressions, e.IsRead := by
    intro e he
    have heq : e = total := by
      simpa using (show e ∈ List.replicate 5 total from he)
    rw [heq]
    exact ⟨" n+m\n", rfl⟩
  have hlength : ∀ k ∈ inn.knots, k.objects.length < UInt64.size := by decide
  have hdepth : (ofScript inn).depth = 18 := by decide
  obtain ⟨hscript, htext⟩ := read_write hread hlength
  exact ⟨hread, hdepth, hscript, htext (by rw [hdepth]; decide)⟩

end Document

end Skein
