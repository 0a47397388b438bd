import Skein.Proofs.Expr.Lexing
import Skein.Proofs.Json.TextRoundTrip
import Skein.Proofs.Story.Nodes
import Skein.Story.Document.Reader
import Skein.Story.Document.Writer

set_option autoImplicit false

/-!
# Story: records of the document form

What is written of a record are its fields in their order, some of them left out, and the record is
read from whatever fields are there.  So a record is read as it is written as soon as each field
is: from its value, or from its absence.
-/

namespace Skein

/-! ## The levels of an outline -/

namespace Outline

theorem le_heightItems (most : Nat) (items : List Outline) :
    most ≤ heightItems most items ∧ ∀ item ∈ items, item.height ≤ heightItems most items := by
  induction items generalizing most with
  | nil => exact ⟨Nat.le_refl most, nofun⟩
  | cons item rest ih =>
      rw [heightItems]
      obtain ⟨hmost, hrest⟩ := ih (max most item.height)
      exact ⟨by omega, List.forall_mem_cons.mpr ⟨by omega, hrest⟩⟩

theorem le_heightFields (most : Nat) (fields : List (Option String × Outline)) :
    most ≤ heightFields most fields ∧
      ∀ field ∈ fields, field.2.height ≤ heightFields most fields := by
  induction fields generalizing most with
  | nil => exact ⟨Nat.le_refl most, nofun⟩
  | cons field rest ih =>
      obtain ⟨name, value⟩ := field
      rw [heightFields]
      obtain ⟨hmost, hrest⟩ := ih (max most value.height)
      exact ⟨by omega, List.forall_mem_cons.mpr ⟨by dsimp only; omega, hrest⟩⟩

theorem height_pos (outline : Outline) : 0 < outline.height := by
  cases outline <;> simp [height]

theorem height_lt_of_mem_array {item : Json} {items : List Json} (hmem : item ∈ items) :
    (ofJson item).height < (ofJson (.array items)).height := by
  rw [ofJson_array, height]
  exact Nat.lt_succ_of_le ((le_heightItems 0 _).2 _ (List.mem_map.mpr ⟨item, hmem, rfl⟩))

theorem height_lt_of_mem_object {name : String} {value : Json} {fields : List (String × Json)}
    (hmem : (name, value) ∈ fields) : (ofJson value).height < (ofJson (.object fields)).height := by
  rw [ofJson_object, height]
  have hseen := List.mem_map_of_mem (f := fun f : String × Json => (some f.1, ofJson f.2)) hmem
  exact Nat.lt_succ_of_le ((le_heightFields 0 _).2 _ hseen)

end Outline

namespace Document

variable {α β : Type}

/-! ## Records -/

theorem Cell.map_value {f : α → β} {cell : Cell α} {a : α} (h : cell = .value a) :
    f <$> cell = .value (f a) := by
  rw [h]
  rfl

theorem Cell.seq_value {cells : Cell (α → β)} {cell : Cell α} {f : α → β} {a : α}
    (hf : cells = .value f) (h : cell = .value a) : cells <*> cell = .value (f a) := by
  rw [hf, h]
  rfl

/-- What is written of a record: its fields in their order, each with its value unless it is left
out. -/
structure Slots where
  list : List (String × Option Json)
  nodup : (list.map (·.1)).Nodup := by simp

/-- The fields that are there of those in a list. -/
def present (slots : List (String × Option Json)) : List (String × Json) :=
  slots.filterMap fun slot => slot.2.map (slot.1, ·)

/-- How a field that is there stands in the outline. -/
def seen (field : String × Json) : Option String × Outline := (some field.1, .ofJson field.2)

theorem namedValue?_of_forall_ne {slots : List (String × Option Json)} {name : String}
    (hne : ∀ slot ∈ slots, slot.1 ≠ name) (place : Nat) :
    Record.namedValue? name place ((present slots).map seen) = none := by
  induction slots generalizing place with
  | nil => rfl
  | cons slot rest ih =>
      obtain ⟨hslot, hrest⟩ := List.forall_mem_cons.mp hne
      obtain ⟨other, json?⟩ := slot
      cases json? with
      | none => exact ih hrest place
      | some json =>
          have hkey : (some other : Option String) ≠ some name := by simpa using hslot
          show (if (some other : Option String) = some name then _ else
            Record.namedValue? name (place + 1) ((present rest).map seen)) = none
          rw [if_neg hkey]
          exact ih hrest (place + 1)

/-- A field that is there is found, and one that is left out is not. -/
theorem namedValue?_present {slots : List (String × Option Json)}
    (hnodup : (slots.map (·.1)).Nodup) {name : String} {json? : Option Json}
    (hmem : (name, json?) ∈ slots) (place : Nat) :
    (Record.namedValue? name place ((present slots).map seen)).map (·.2) =
      json?.map Outline.ofJson := by
  induction slots generalizing place with
  | nil => cases hmem
  | cons slot rest ih =>
      obtain ⟨other, other?⟩ := slot
      rw [List.map_cons, List.nodup_cons] at hnodup
      rcases List.mem_cons.mp hmem with heq | hlater
      · obtain ⟨rfl, rfl⟩ := Prod.mk.inj heq
        cases json? with
        | none =>
            have hne : ∀ slot ∈ rest, slot.1 ≠ name := by
              rintro slot hslot rfl
              exact hnodup.1 (List.mem_map.mpr ⟨slot, hslot, rfl⟩)
            show (Record.namedValue? name place ((present rest).map seen)).map (·.2) = none
            rw [namedValue?_of_forall_ne hne]
            rfl
        | some json =>
            show (if (some name : Option String) = some name then some (place, Outline.ofJson json)
              else _).map (·.2) = _
            rw [if_pos rfl]
            rfl
      · have hne : other ≠ name := by
          rintro rfl
          exact hnodup.1 (List.mem_map.mpr ⟨_, hlater, rfl⟩)
        cases other? with
        | none => exact ih hnodup.2 hlater place
        | some json =>
            have hkey : (some other : Option String) ≠ some name := by simpa using hne
            show (if (some other : Option String) = some name then _ else
              Record.namedValue? name (place + 1) ((present rest).map seen)).map (·.2) = _
            rw [if_neg hkey]
            exact ih hnodup.2 hlater (place + 1)

/-- The names of the fields that are there are those of the record, each at most once. -/
theorem checkNames_present {slots : List (String × Option Json)}
    (hnodup : (slots.map (·.1)).Nodup) {names : List String}
    (hnames : ∀ slot ∈ slots, slot.1 ∈ names) {passed : List String}
    (hpassed : ∀ slot ∈ slots, slot.1 ∉ passed) (place : Nat) :
    Record.checkNames names passed place ((present slots).map seen) = .value () := by
  induction slots generalizing passed place with
  | nil => rfl
  | cons slot rest ih =>
      obtain ⟨name, json?⟩ := slot
      obtain ⟨hname, hlater⟩ := List.forall_mem_cons.mp hnames
      obtain ⟨hfresh, hunpassed⟩ := List.forall_mem_cons.mp hpassed
      rw [List.map_cons, List.nodup_cons] at hnodup
      cases json? with
      | none => exact ih hnodup.2 hlater hunpassed place
      | some json =>
          show (if name ∈ names then
            if name ∈ passed then _
            else Record.checkNames names (name :: passed) (place + 1) ((present rest).map seen)
            else _) = _
          rw [if_pos hname, if_neg hfresh]
          refine ih hnodup.2 hlater (fun slot hslot hmem => ?_) (place + 1)
          rcases List.mem_cons.mp hmem with heq | hmem
          · exact hnodup.1 (heq ▸ List.mem_map.mpr ⟨slot, hslot, rfl⟩)
          · exact hunpassed slot hslot hmem

namespace Slots

variable {slots : Slots} {name : String} {json : Json} {read : Outline → Reads α} {a : α}

/-- The record as it is written. -/
def object (slots : Slots) : Json := .object (present slots.list)

/-- The record as it is met by its reader. -/
def record (slots : Slots) : Record :=
  ⟨slots.list.map (·.1), .named ((present slots.list).map seen)⟩

theorem cell {json? : Option Json} (hmem : (name, json?) ∈ slots.list) {missing : Reads α}
    (hsome : ∀ json ∈ json?, read (.ofJson json) = .ok a) (hnone : json? = none → missing = .ok a) :
    slots.record.cell name read missing = .value a := by
  have hfound := namedValue?_present slots.nodup hmem 0
  unfold Record.cell Record.value? record
  dsimp only
  cases hvalue : Record.namedValue? name 0 ((present slots.list).map seen) with
  | none =>
      rw [hvalue] at hfound
      rw [hnone (Option.map_eq_none_iff.mp hfound.symm)]
      rfl
  | some found =>
      obtain ⟨place, outline⟩ := found
      rw [hvalue] at hfound
      obtain ⟨json, hjson, houtline⟩ := Option.map_eq_some_iff.mp hfound.symm
      obtain rfl : Outline.ofJson json = outline := houtline
      dsimp only
      rw [hsome json hjson]
      rfl

theorem required (hmem : (name, some json) ∈ slots.list) (hread : read (.ofJson json) = .ok a) :
    slots.record.required name read = .value a :=
  cell hmem (fun _ hjson => Option.some.inj hjson ▸ hread) nofun

theorem optional {a? : Option α} (hmem : (name, some json) ∈ slots.list)
    (hread : nullable read (.ofJson json) = .ok a?) :
    slots.record.optional name read = .value a? :=
  cell hmem (fun _ hjson => Option.some.inj hjson ▸ hread) nofun

theorem defaulting {value : α} (hmem : (name, some json) ∈ slots.list)
    (hread : read (.ofJson json) = .ok a) : slots.record.defaulting name read value = .value a :=
  cell hmem (fun _ hjson => Option.some.inj hjson ▸ hread) nofun

/-- A record is read as it is written if each of its fields is. -/
theorem reads (slots : Slots) (hjson : json = slots.object) {fields : Record → Cell α}
    (hfields : fields slots.record = .value a) :
    Document.record (slots.list.map (·.1)) fields (.ofJson json) = .ok a := by
  have hcheck : slots.record.check = .value () :=
    checkNames_present slots.nodup (fun slot hslot => List.mem_map.mpr ⟨slot, hslot, rfl⟩)
      (fun _ _ => List.not_mem_nil) 0
  rw [hjson, object, Outline.ofJson_object]
  show (fields slots.record <* slots.record.check).reads = _
  rw [hfields, hcheck]
  rfl

end Slots

/-! ## Plain values -/

theorem many_map {of : α → Json} {read : Outline → Reads α} {list : List α}
    (h : ∀ a ∈ list, read (.ofJson (of a)) = .ok a) :
    many read (.ofJson (.array (list.map of))) = .ok list := by
  have hitems (done : List α) :
      items read done ((list.map of).map .ofJson) = .ok (done.reverse ++ list) := by
    induction list generalizing done with
    | nil => exact congrArg Except.ok (List.append_nil _).symm
    | cons a rest ih =>
        obtain ⟨ha, hrest⟩ := List.forall_mem_cons.mp h
        rw [List.map_cons, List.map_cons, items, ha]
        refine (ih hrest (a :: done)).trans ?_
        rw [List.reverse_cons, List.append_assoc]
        rfl
  rw [Outline.ofJson_array]
  exact hitems []

theorem string_ofJson (s : String) : string (.ofJson (.string s)) = .ok s := rfl

theorem bool_ofJson (b : Bool) : bool (.ofJson (.bool b)) = .ok b := rfl

theorem expression_ofExpression {e : Expression} (he : e.IsRead) :
    expression (.ofJson (ofExpression e)) = .ok e := by
  obtain ⟨source, hsource⟩ := he
  have hstring : string (.ofJson (ofExpression e)) = .ok e.source := rfl
  unfold expression
  rw [hstring]
  simp only [bind, Except.bind, Expression.parse_source hsource]
  rfl

theorem natBelow_ofNat {bound n : Nat} (h : n < bound) :
    natBelow bound (.ofJson (ofNat n)) = .ok n := by
  show (if 0 ≤ (n : Int) ∧ (n : Int) < bound then .ok (n : Int).toNat else malformed) = _
  rw [if_pos ⟨Int.natCast_nonneg n, Int.ofNat_lt.mpr h⟩, Int.toNat_natCast]

theorem id_ofId (number : NodeId) : id (.ofJson (ofId number)) = .ok number := by
  unfold id ofId
  rw [natBelow_ofNat number.number.toNat_lt]
  show Except.ok (⟨UInt32.ofNat number.number.toNat⟩ : NodeId) = _
  rw [UInt32.ofNat_toNat]

theorem level_ofNat (n : UInt16) : level (.ofJson (ofNat n.toNat)) = .ok n := by
  unfold level
  rw [natBelow_ofNat n.toNat_lt]
  show Except.ok (UInt16.ofNat n.toNat) = _
  rw [UInt16.ofNat_toNat]

theorem int64_ofInt (n : Int64) : int64 (.ofJson (.int n.toInt)) = .ok n := by
  show (if Int64.minValue.toInt ≤ n.toInt ∧ n.toInt ≤ Int64.maxValue.toInt then
    .ok (Int64.ofInt n.toInt) else malformed) = _
  rw [if_pos ⟨n.minValue_le_toInt, n.toInt_le⟩, Int64.ofInt_toInt]

/-! ## Names -/

theorem plain_divertName (kind : DivertKind) :
    plain divertNamed? (.ofJson (.string (divertName kind))) = .ok kind := by
  cases kind <;> rfl

theorem plain_markerName (m : Marker) :
    plain markerNamed? (.ofJson (.string (markerName m))) = .ok m := by
  cases m <;> rfl

theorem plain_sequenceName (kind : SequenceKind) :
    plain sequenceNamed? (.ofJson (.string (sequenceName kind))) = .ok kind := by
  cases kind <;> rfl

/-! ## Fields that are left out -/

/-- The value of a field that is left out when it has no items. -/
def unlessNone (items : List Json) : Option Json :=
  if items.isEmpty then none else some (.array items)

theorem unlessEmpty_eq (name : String) (items : List Json) :
    unlessEmpty name items = present [(name, unlessNone items)] := by
  unfold unlessEmpty unlessNone
  split <;> rfl

theorem unlessMissing_eq (name : String) (json? : Option Json) :
    unlessMissing name json? = present [(name, json?)] := by
  cases json? <;> rfl

/-- A list is read from a field that is left out when the list is empty. -/
theorem Slots.defaulting_many {slots : Slots} {name : String} {of : α → Json} {list : List α}
    (hmem : (name, unlessNone (list.map of)) ∈ slots.list) {read : Outline → Reads α}
    (h : ∀ a ∈ list, read (.ofJson (of a)) = .ok a) :
    slots.record.defaulting name (many read) [] = .value list := by
  refine Slots.cell hmem (fun json hjson => ?_) fun hnone => ?_
  · unfold unlessNone at hjson
    split at hjson
    · cases hjson
    · obtain rfl := Option.some.inj hjson
      exact many_map h
  · unfold unlessNone at hnone
    split at hnone
    · next hempty =>
      have hnil : list = [] := by simpa using hempty
      rw [hnil]
    · cases hnone

/-- Something is read from a field that is left out when it is missing. -/
theorem Slots.defaulting_nullable {slots : Slots} {name : String} {of : α → Json} {a? : Option α}
    (hmem : (name, a?.map of) ∈ slots.list) {read : Outline → Reads α}
    (h : ∀ a ∈ a?, nullable read (.ofJson (of a)) = .ok (some a)) :
    slots.record.defaulting name (nullable read) none = .value a? := by
  refine Slots.cell hmem (fun json hjson => ?_) fun hnone => ?_
  · obtain ⟨a, rfl, rfl⟩ := Option.map_eq_some_iff.mp hjson
    exact h a rfl
  · rw [Option.map_eq_none_iff.mp hnone]

/-! ## Levels and numbers of what is written -/

theorem Slots.height_lt {slots : Slots} (name : String) {json : Json}
    (hmem : (name, some json) ∈ slots.list) :
    (Outline.ofJson json).height < (Outline.ofJson slots.object).height :=
  Outline.height_lt_of_mem_object (List.mem_filterMap.mpr ⟨(name, some json), hmem, rfl⟩)

@[simp] theorem Slots.writable_object_iff {slots : Slots} :
    slots.object.Writable ↔ ∀ slot ∈ slots.list, ∀ json, slot.2 = some json → json.Writable := by
  rw [object, Json.writable_object_iff]
  refine ⟨fun h slot hslot json hjson => ?_, fun h field hfield => ?_⟩
  · exact h (slot.1, json) (List.mem_filterMap.mpr ⟨slot, hslot, by rw [hjson]; rfl⟩)
  · obtain ⟨slot, hslot, hfield⟩ := List.mem_filterMap.mp hfield
    obtain ⟨json, hjson, rfl⟩ := Option.map_eq_some_iff.mp hfield
    exact h slot hslot json hjson

@[simp] theorem writable_unlessNone_iff {items : List Json} :
    (∀ json, unlessNone items = some json → json.Writable) ↔ ∀ item ∈ items, item.Writable := by
  unfold unlessNone
  split
  · next hempty => simp [List.isEmpty_iff.mp hempty]
  · simp

@[simp] theorem writable_ofNat {n : Nat} (h : n < UInt64.size) : (ofNat n).Writable := by
  have hlower : Int64.minValue.toInt ≤ (n : Int) := by
    rw [Int64.toInt_minValue]
    omega
  exact .int hlower (Int.ofNat_lt.mpr h)

@[simp] theorem writable_ofId (number : NodeId) : (ofId number).Writable := by
  refine writable_ofNat (Nat.lt_trans number.number.toNat_lt ?_)
  decide

@[simp] theorem writable_ofExpression (e : Expression) : (ofExpression e).Writable :=
  .string e.source

end Document

end Skein
