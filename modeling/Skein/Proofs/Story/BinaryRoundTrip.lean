import Skein.Proofs.Expr.Lexing
import Skein.Proofs.Story.BinaryBounds
import Skein.Story.Binary.Writer

set_option autoImplicit false

/-!
# Story: the binary form is read as it was written

For each thing that can be written, the bytes that writing adds settle what its reader comes to:
with anything behind them it comes to the same, and on fewer of them it runs into the end.

Of an expression only the source is written, and it is read again with no names known.  It comes
back whole if it was read that way before.  If it was read with names known, its source may give
another expression, or none at all.  So what was written comes back as it was, or as a copy, or
reading stops behind the first source that gives no expression.
-/

namespace Skein

/-- An expression whose source can be read with no names known. -/
def Expression.Rereads (e : Expression) : Prop := ∃ e', parse Symbols.none e.source = .ok e'

namespace Binary

open Content

variable {α β : Type}

/-! ## Bytes that settle a reading -/

/-- The bytes settle what a reader comes to, and no fewer do: whatever stands behind them, it comes
to the same outcome and leaves that, and on fewer of them it runs into the end. -/
structure Settles (get : Get α) (bytes : Bytes) (outcome : Except FormatFault α) : Prop where
  whole : ∀ rest, get (bytes ++ rest) = outcome.map (·, rest)
  front : ∀ front, front <+: bytes → front ≠ bytes → get front = .error .unexpectedEnd

theorem settles_pure (a : α) : Settles (pure a) [] (.ok a) where
  whole _ := rfl
  front _ hfront hshort := absurd (List.prefix_nil.mp hfront) hshort

theorem settles_fail (fault : FormatFault) :
    Settles (Get.fail fault : Get α) [] (.error fault) where
  whole _ := rfl
  front _ hfront hshort := absurd (List.prefix_nil.mp hfront) hshort

section Bind

variable {get : Get α} {next : α → Get β} {bytes more : Bytes}

/-- The bytes of two things in a row.  Where they break off, they break off within the first thing,
or behind it and within the second. -/
theorem Settles.bind {a : α} {outcome : Except FormatFault β} (hget : Settles get bytes (.ok a))
    (hnext : Settles (next a) more outcome) : Settles (get >>= next) (bytes ++ more) outcome := by
  constructor
  · intro rest
    rw [run_bind, List.append_assoc, hget.whole]
    exact hnext.whole rest
  · intro front hfront hshort
    rw [run_bind]
    by_cases hbehind : bytes <+: front
    · obtain ⟨part, rfl⟩ := hbehind
      rw [hget.whole]
      refine hnext.front part ((List.prefix_append_right_inj bytes).mp hfront) fun heq => ?_
      exact hshort (congrArg (bytes ++ ·) heq)
    · have hwithin : front <+: bytes :=
        (List.prefix_or_prefix_of_prefix hfront (List.prefix_append bytes more)).resolve_right
          hbehind
      rw [hget.front front hwithin fun heq => hbehind (heq ▸ List.prefix_refl front)]
      rfl

theorem Settles.bind_error {fault : FormatFault} (hget : Settles get bytes (.error fault)) :
    Settles (get >>= next) bytes (.error fault) := by
  constructor
  · intro rest
    rw [run_bind, hget.whole]
    rfl
  · intro front hfront hshort
    rw [run_bind, hget.front front hfront hshort]
    rfl

/-- The second part takes nothing. -/
theorem Settles.bind_nil {a : α} {outcome : Except FormatFault β} (hget : Settles get bytes (.ok a))
    (hnext : Settles (next a) [] outcome) : Settles (get >>= next) bytes outcome := by
  have hbind := hget.bind hnext
  rwa [List.append_nil] at hbind

theorem Settles.map {a : α} (hget : Settles get bytes (.ok a)) (f : α → β) :
    Settles (get >>= fun b => pure (f b)) bytes (.ok (f a)) :=
  hget.bind_nil (settles_pure (f a))

end Bind

/-! ## Primitives -/

theorem settles_byte (b : UInt8) : Settles Get.byte [b] (.ok b) where
  whole _ := rfl
  front front hfront hshort := by
    cases front with
    | nil => rfl
    | cons c rest => exact absurd (hfront.eq_of_length_le (by simp)) hshort

theorem settles_tagged {of? : UInt8 → Option α} {b : UInt8} {a : α} (hof : of? b = some a)
    (what : Tagged) : Settles (Get.tagged what of?) [b] (.ok a) := by
  refine (settles_byte b).bind_nil ?_
  rw [hof]
  exact settles_pure a

theorem settles_take (bytes : Bytes) : Settles (Get.take bytes.length) bytes (.ok bytes) where
  whole rest := by simp [Get.take, Except.map]
  front front hfront hshort := by
    have hlength : front.length < bytes.length :=
      Nat.lt_of_not_le fun hle => hshort (hfront.eq_of_length_le hle)
    refine if_pos ?_
    rw [List.length_take]
    omega

theorem length_littleEndian (width n : Nat) : (littleEndian width n).length = width := by
  induction width generalizing n with
  | zero => rfl
  | succ width ih => rw [littleEndian, List.length_cons, ih]

theorem ofLittleEndian_littleEndian {width n : Nat} (hn : n < Nat.pow 256 width) :
    ofLittleEndian (littleEndian width n) = n := by
  induction width generalizing n with
  | zero =>
      have : n = 0 := Nat.lt_one_iff.mp hn
      rw [this]
      rfl
  | succ width ih =>
      have hrest : n / 256 < Nat.pow 256 width :=
        Nat.div_lt_of_lt_mul (Nat.lt_of_lt_of_eq hn (Nat.mul_comm ..))
      have hbyte : (UInt8.ofNat (n % 256)).toNat = n % 256 := by
        simp
      rw [littleEndian, ofLittleEndian, ih hrest, hbyte]
      omega

theorem settles_number {width n : Nat} (hn : n < Nat.pow 256 width) :
    Settles (Get.number width) (littleEndian width n) (.ok n) := by
  have htake := (settles_take (littleEndian width n)).map ofLittleEndian
  rwa [length_littleEndian, ofLittleEndian_littleEndian hn] at htake

/-- A string behind its length. -/
def stored (s : String) : Bytes := littleEndian 2 s.utf8ByteSize ++ s.toUTF8.data.toList

theorem fromUTF8?_toUTF8 (s : String) :
    String.fromUTF8? ⟨s.toUTF8.data.toList.toArray⟩ = some s := by
  have hvalid : s.toUTF8.IsValidUTF8 := s.isValidUTF8
  rw [Array.toArray_toList]
  exact dif_pos hvalid

theorem settles_string {s : String} (hsize : s.utf8ByteSize < UInt16.size) :
    Settles Get.string (stored s) (.ok s) := by
  have htake := settles_take s.toUTF8.data.toList
  refine (settles_number hsize).bind (htake.bind_nil ?_)
  rw [fromUTF8?_toUTF8]
  exact settles_pure s

/-- The last group of a number is marked by its high bit. -/
theorem settles_lastGroup {n : Nat} (hn : n < 128) (bound : Nat) :
    Settles (Get.groups (bound + 1)) [UInt8.ofNat (n + 128)] (.ok n) := by
  have hbyte : (UInt8.ofNat (n + 128)).toNat = n + 128 := by
    rw [UInt8.toNat_ofNat']
    omega
  refine (settles_byte (UInt8.ofNat (n + 128))).bind_nil ?_
  dsimp only
  rw [hbyte, if_pos (by omega), Nat.add_sub_cancel]
  exact settles_pure n

theorem settles_groups {bound n : Nat} (hn : n < Nat.pow 128 (bound + 1)) :
    Settles (Get.groups (bound + 1)) (groups (bound + 1) n) (.ok n) := by
  induction bound generalizing n with
  | zero =>
      have hlast : n < 128 := by simpa using hn
      rw [groups, if_pos hlast]
      exact settles_lastGroup hlast 0
  | succ bound ih =>
      rw [groups]
      split
      · next hlast => exact settles_lastGroup hlast (bound + 1)
      · next hmore =>
        have hrest : n / 128 < Nat.pow 128 (bound + 1) :=
          Nat.div_lt_of_lt_mul (Nat.lt_of_lt_of_eq hn (Nat.mul_comm ..))
        have hbyte : (UInt8.ofNat (n % 128)).toNat = n % 128 := by
          rw [UInt8.toNat_ofNat']
          omega
        refine (settles_byte (UInt8.ofNat (n % 128))).bind ?_
        dsimp only
        rw [hbyte, if_neg (by omega)]
        have hlater := (ih hrest).map fun m => n % 128 + 128 * m
        rwa [Nat.mod_add_div] at hlater

theorem settles_id (i : NodeId) :
    Settles Get.id (groups maxGroups i.number.toNat) (.ok i) := by
  have hi := i.number.toNat_lt
  have hgroups : i.number.toNat < Nat.pow 128 maxGroups :=
    Nat.lt_of_lt_of_le hi (by decide)
  refine (settles_groups hgroups).bind_nil ?_
  rw [if_pos hi, UInt32.ofNat_toNat]
  exact settles_pure i

/-! ## What reading gives back -/

/-- Of the expressions that are written, in order, the first whose source cannot be read again, and
why.  Its source stands behind `head` in the bytes. -/
structure Unread (list : List Expression) (bytes head : Bytes) (e : Expression)
    (fault : ExprFault) : Prop where
  first : ∃ before after, list = before ++ e :: after ∧ ∀ earlier ∈ before, earlier.Rereads
  fails : Expression.parse Symbols.none e.source = .error fault
  held : head ++ stored e.source <+: bytes

section Unread

variable {list : List Expression} {bytes head : Bytes} {e : Expression} {fault : ExprFault}

theorem Unread.append (h : Unread list bytes head e fault) (later : List Expression)
    (more : Bytes) : Unread (list ++ later) (bytes ++ more) head e fault := by
  obtain ⟨before, after, hlist, hbefore⟩ := h.first
  refine ⟨⟨before, after ++ later, ?_, hbefore⟩, h.fails,
    h.held.trans (List.prefix_append bytes more)⟩
  rw [hlist, List.append_assoc, List.cons_append]

theorem Unread.behind (h : Unread list bytes head e fault) {earlier : List Expression}
    (hearlier : ∀ e ∈ earlier, e.Rereads) (less : Bytes) :
    Unread (earlier ++ list) (less ++ bytes) (less ++ head) e fault := by
  obtain ⟨before, after, hlist, hbefore⟩ := h.first
  refine ⟨⟨earlier ++ before, after, ?_, ?_⟩, h.fails, ?_⟩
  · rw [hlist, List.append_assoc]
  · exact List.forall_mem_append.mpr ⟨hearlier, hbefore⟩
  · rw [List.append_assoc]
    exact (List.prefix_append_right_inj less).mpr h.held

theorem Unread.not_rereads (h : Unread list bytes head e fault) : e ∈ list ∧ ¬e.Rereads := by
  obtain ⟨before, after, hlist, -⟩ := h.first
  refine ⟨by simp [hlist], fun hrereads => ?_⟩
  obtain ⟨e', hparse⟩ := hrereads
  rw [h.fails] at hparse
  cases hparse

end Unread

/-- What reading the bytes of something comes to, where `list` are its expressions in the order in
which they are written.  If all of them can be read again, it comes to a copy, and to the thing
itself if they had been read with no names known.  If not, it stops behind the source of the first
that cannot. -/
inductive Recalls (get : Get α) (bytes : Bytes) (list : List Expression) (a : α) : Prop where
  | copy (b : α) (settles : Settles get bytes (.ok b)) (rereads : ∀ e ∈ list, e.Rereads)
      (same : (∀ e ∈ list, e.IsRead) → b = a)
  | unread {head : Bytes} {e : Expression} {fault : ExprFault}
      (first : Unread list bytes head e fault)
      (settles : Settles get (head ++ stored e.source) (.error (.expression e.source fault)))

/-- Bytes have been added that give back the thing. -/
def Wrote (get : Get α) (out out' : Written) (list : List Expression) (a : α) : Prop :=
  ∃ bytes, out'.toList = out.toList ++ bytes ∧ Recalls get bytes list a

theorem Settles.wrote {get : Get α} {bytes : Bytes} {a : α} (h : Settles get bytes (.ok a))
    {out out' : Written} (hout : out'.toList = out.toList ++ bytes) : Wrote get out out' [] a :=
  ⟨bytes, hout, .copy a h nofun fun _ => rfl⟩

theorem wrote_pure (out : Written) (a : α) : Wrote (pure a) out out [] a :=
  (settles_pure a).wrote (List.append_nil _).symm

section Bind

variable {get : Get α} {next : α → Get β} {out mid out' : Written} {a : α} {b : β}
  {list later : List Expression}

/-- Reading goes on with what came back first, which is what was written if there were no
expressions in it. -/
theorem Wrote.bind {f : α → β} (hfirst : Wrote get out mid list a)
    (hnext : ∀ c, (list = [] → c = a) → Wrote (next c) mid out' later (f c)) :
    Wrote (get >>= next) out out' (list ++ later) (f a) := by
  obtain ⟨bytes, hmid, hbytes⟩ := hfirst
  cases hbytes with
  | copy c hsettles hrereads hsame =>
      have hcopy : list = [] → c = a := by
        rintro rfl
        exact hsame nofun
      obtain ⟨more, hout, hmore⟩ := hnext c hcopy
      refine ⟨bytes ++ more, by rw [hout, hmid, List.append_assoc], ?_⟩
      cases hmore with
      | copy d hsettles' hrereads' hsame' =>
          refine .copy d (hsettles.bind hsettles')
            (List.forall_mem_append.mpr ⟨hrereads, hrereads'⟩) fun hread => ?_
          obtain ⟨hread, hread'⟩ := List.forall_mem_append.mp hread
          rw [hsame' hread', hsame hread]
      | unread first hsettles' =>
          refine .unread (first.behind hrereads bytes) ?_
          rw [List.append_assoc]
          exact hsettles.bind hsettles'
  | unread first hsettles =>
      obtain ⟨more, hout, -⟩ := hnext a fun _ => rfl
      exact ⟨bytes ++ more, by rw [hout, hmid, List.append_assoc],
        .unread (first.append later more) hsettles.bind_error⟩

theorem Wrote.andThen (hfirst : Wrote get out mid [] a) (hnext : Wrote (next a) mid out' later b) :
    Wrote (get >>= next) out out' later b := by
  refine hfirst.bind (f := fun _ => b) fun c hc => ?_
  rw [hc rfl]
  exact hnext

theorem Wrote.map (h : Wrote get out out' list a) (f : α → β) :
    Wrote (get >>= fun c => pure (f c)) out out' list (f a) := by
  have hbind := h.bind (f := f) fun c _ => wrote_pure out' (f c)
  rwa [List.append_nil] at hbind

end Bind

/-! ## Counts and lists -/

theorem wrote_byte (out : Written) (b : UInt8) : Wrote Get.byte out (Put.byte out b) [] b :=
  (settles_byte b).wrote Array.toList_push

theorem wrote_tagged {of? : UInt8 → Option α} {b : UInt8} {a : α} (hof : of? b = some a)
    (what : Tagged) (out : Written) :
    Wrote (Get.tagged what of?) out (Put.byte out b) [] a :=
  (settles_tagged hof what).wrote Array.toList_push

theorem wrote_bool (out : Written) (b : Bool) : Wrote Get.bool out (Put.bool out b) [] b := by
  refine wrote_tagged ?_ .bool out
  cases b <;> rfl

theorem wrote_number {width n : Nat} (hn : n < Nat.pow 256 width) (out : Written) :
    Wrote (Get.number width) out (Put.number out width n) [] n :=
  (settles_number hn).wrote (by simp [Put.number])

theorem wrote_id (out : Written) (i : NodeId) : Wrote Get.id out (Put.id out i) [] i :=
  (settles_id i).wrote (by simp [Put.id])

theorem wrote_count16 {out out' : Written} {n : Nat} (h : Put.count16 out n = .ok out') :
    Wrote (Get.number 2) out out' [] n := by
  unfold Put.count16 at h
  split at h
  · next hn =>
    cases h
    exact wrote_number hn out
  · cases h

theorem wrote_count32 {out out' : Written} {n : Nat} (h : Put.count32 out n = .ok out') :
    Wrote (Get.number 4) out out' [] n := by
  unfold Put.count32 at h
  split at h
  · next hn =>
    cases h
    exact wrote_number hn out
  · cases h

theorem toList_of_string {out out' : Written} {s : String} (h : Put.string out s = .ok out') :
    s.utf8ByteSize < UInt16.size ∧ out'.toList = out.toList ++ stored s := by
  unfold Put.string at h
  split at h
  · next hsize =>
    cases h
    refine ⟨hsize, ?_⟩
    rw [Put.number, Array.toList_append, Array.toList_append, stored, List.append_assoc]
  · cases h

theorem wrote_string {out out' : Written} {s : String} (h : Put.string out s = .ok out') :
    Wrote Get.string out out' [] s := by
  obtain ⟨hsize, hout⟩ := toList_of_string h
  exact (settles_string hsize).wrote hout

/-- The items of a list have been added, in order. -/
def WroteEach (get : Get α) (out out' : Written) (expressions : List Expression)
    (list : List α) : Prop :=
  ∀ taken, Wrote (Get.times get taken list.length) out out' expressions (taken.reverse ++ list)

theorem wroteEach_nil (get : Get α) (out : Written) : WroteEach get out out [] [] := by
  intro taken
  rw [List.append_nil]
  exact wrote_pure out taken.reverse

section Lists

variable {get : Get α} {put : Written → α → Put} {out mid out' : Written}
  {expressionsOf : α → List Expression} {list : List α}

theorem WroteEach.cons {a : α} {first later : List Expression}
    (hfirst : Wrote get out mid first a) (hrest : WroteEach get mid out' later list) :
    WroteEach get out out' (first ++ later) (a :: list) := by
  intro taken
  have heach := hfirst.bind (f := fun c => (c :: taken).reverse ++ list) fun c _ =>
    hrest (c :: taken)
  rwa [List.reverse_cons, List.append_assoc, List.singleton_append] at heach

theorem wroteEach_each
    (hput : ∀ a ∈ list, ∀ {out out' : Written}, put out a = .ok out' →
      Wrote get out out' (expressionsOf a) a)
    (h : Put.each put out list = .ok out') :
    WroteEach get out out' (list.flatMap expressionsOf) list := by
  induction list generalizing out with
  | nil =>
      cases h
      exact wroteEach_nil get _
  | cons a rest ih =>
      obtain ⟨mid, hfirst, hrest⟩ := Outcome.of_bind_eq_ok h
      exact WroteEach.cons (hput a List.mem_cons_self hfirst)
        (ih (fun b hb => hput b (List.mem_cons_of_mem _ hb)) hrest)

/-- A list is read behind its count, which has the width of what reads it. -/
theorem WroteEach.counted {width : Nat} {expressions : List Expression}
    (hcount : Wrote (Get.number width) out mid [] list.length)
    (heach : WroteEach get mid out' expressions list) :
    Wrote (Get.counted width get) out out' expressions list :=
  hcount.andThen (heach [])

theorem wrote_counted
    (hput : ∀ a ∈ list, ∀ {out out' : Written}, put out a = .ok out' →
      Wrote get out out' (expressionsOf a) a)
    (h : Put.counted put out list = .ok out') :
    Wrote (Get.counted 2 get) out out' (list.flatMap expressionsOf) list := by
  obtain ⟨mid, hcount, heach⟩ := Outcome.of_bind_eq_ok h
  exact (wroteEach_each hput heach).counted (wrote_count16 hcount)

/-- A list of things without expressions. -/
theorem wrote_plain
    (hput : ∀ a ∈ list, ∀ {out out' : Written}, put out a = .ok out' → Wrote get out out' [] a)
    (h : Put.counted put out list = .ok out') :
    Wrote (Get.counted 2 get) out out' [] list := by
  have hcounted := wrote_counted hput h
  rwa [List.flatMap_eq_nil_iff.mpr fun _ _ => rfl] at hcounted

theorem wrote_optional {option : Option α}
    (hput : ∀ a ∈ option, ∀ {out out'}, put out a = .ok out' →
      Wrote get out out' (expressionsOf a) a)
    (h : Put.optional put out option = .ok out') :
    Wrote (Get.optional get) out out' (option.toList.flatMap expressionsOf) option := by
  cases option with
  | none =>
      cases h
      exact (wrote_bool out false).andThen (wrote_pure _ none)
  | some a =>
      rw [Option.toList_some, List.flatMap_singleton]
      exact (wrote_bool out true).andThen ((hput a rfl h).map some)

end Lists

/-! ## Expressions -/

theorem wrote_expression {e : Expression} {out out' : Written}
    (h : Put.expression out e = .ok out') : Wrote Get.expression out out' [e] e := by
  obtain ⟨hsize, hout⟩ := toList_of_string h
  refine ⟨stored e.source, hout, ?_⟩
  have hstring := settles_string hsize
  cases hparse : Expression.parse Symbols.none e.source with
  | ok e' =>
      have hread : Settles Get.expression (stored e.source) (.ok e') := by
        refine hstring.bind_nil ?_
        rw [hparse]
        exact settles_pure e'
      refine .copy e' hread (by simpa using ⟨e', hparse⟩) fun hall => ?_
      obtain ⟨source, hsource⟩ := hall e List.mem_cons_self
      rw [Expression.parse_source hsource] at hparse
      exact (Except.ok.inj hparse).symm
  | error fault =>
      have hfail : Settles Get.expression (stored e.source)
          (.error (.expression e.source fault)) := by
        refine hstring.bind_nil ?_
        rw [hparse]
        exact settles_fail _
      have hfirst : Unread [e] (stored e.source) [] e fault :=
        ⟨⟨[], [], rfl, nofun⟩, hparse, List.prefix_refl _⟩
      exact .unread hfirst hfail

theorem wrote_expressions {list : List Expression} {out out' : Written}
    (h : Put.counted Put.expression out list = .ok out') :
    Wrote (Get.counted 2 Get.expression) out out' list list := by
  have hcounted := wrote_counted (fun e _ => wrote_expression) h
  rwa [List.flatMap_singleton'] at hcounted

theorem wrote_divert {d : Divert} {out out' : Written} (h : Put.divert out d = .ok out') :
    Wrote Get.divert out out' d.args d := by
  obtain ⟨mid, htarget, hlater⟩ := Outcome.of_bind_eq_ok h
  have hkind : divertOf? (divertCode d.kind) = some d.kind := by
    cases d.kind <;> rfl
  have hoptional := wrote_optional (fun _ _ => wrote_string) htarget
  rw [List.flatMap_eq_nil_iff.mpr fun _ _ => rfl] at hoptional
  refine (wrote_tagged hkind .divertKind out).andThen (hoptional.andThen ?_)
  exact (wrote_expressions hlater).map _

theorem wrote_global {g : GlobalDeclaration} {out out' : Written}
    (h : Put.global out g = .ok out') : Wrote Get.global out out' [g.init] g := by
  obtain ⟨named, hname, h⟩ := Outcome.of_bind_eq_ok h
  obtain ⟨valued, hvalue, h⟩ := Outcome.of_bind_eq_ok h
  cases h
  refine (wrote_string hname).andThen ?_
  refine (wrote_expression hvalue).bind (f := fun e => { g with init := e }) fun e _ => ?_
  exact (wrote_bool valued g.constant).map _

theorem wrote_listEntry {entry : ListEntry} {out out' : Written}
    (h : Put.listEntry out entry = .ok out') : Wrote Get.listEntry out out' [] entry := by
  obtain ⟨named, hname, h⟩ := Outcome.of_bind_eq_ok h
  cases h
  have hvalue : Wrote (Get.number 8) named
      (Put.number named 8 entry.value.toUInt64.toNat) [] entry.value.toUInt64.toNat :=
    wrote_number entry.value.toUInt64.toNat_lt named
  refine (wrote_string hname).andThen (hvalue.andThen ((wrote_bool _ entry.selected).andThen ?_))
  rw [UInt64.ofNat_toNat, Int64.toInt64_toUInt64]
  exact wrote_pure _ entry

theorem wrote_list {l : ListDeclaration} {out out' : Written} (h : Put.list out l = .ok out') :
    Wrote Get.list out out' [] l := by
  obtain ⟨named, hname, h⟩ := Outcome.of_bind_eq_ok h
  refine (wrote_string hname).andThen ?_
  exact (wrote_plain (fun _ _ => wrote_listEntry) h).andThen (wrote_pure _ l)

/-! ## Content -/

theorem entryCode_marks (sticky fallback immediate : Bool) :
    isSticky (entryCode sticky fallback immediate) = sticky ∧
      isFallback (entryCode sticky fallback immediate) = fallback ∧
      isImmediate (entryCode sticky fallback immediate) = immediate := by
  cases sticky <;> cases fallback <;> cases immediate <;> decide

/-- Takes a node, with content nested to any depth. -/
def unboundedNode : Get Node := Get.byte >>= Get.nodeOf unbounded

theorem unbounded_eq : unbounded = Get.counted 4 unboundedNode := isUnbounded_unbounded

/-- A node is its tag byte and what the tag announces. -/
theorem wrote_node_of_tag (tag : UInt8) {out out' : Written} {list : List Expression} {n : Node}
    (h : Wrote (Get.nodeOf unbounded tag) (Put.byte out tag) out' list n) :
    Wrote unboundedNode out out' list n :=
  (wrote_byte out tag).andThen h

theorem wrote_content {out mid out' : Written} {list : List Expression} {content : Content}
    (hcount : Put.count32 out content.length = .ok mid)
    (heach : WroteEach unboundedNode mid out' list content) :
    Wrote unbounded out out' list content := by
  rw [unbounded_eq]
  exact heach.counted (wrote_count32 hcount)

mutual

theorem wrote_node : (n : Node) → ∀ {out out' : Written}, Put.node out n = .ok out' →
    Wrote unboundedNode out out' (nodeExpressions n) n
  | .text s, out, out', h => by
    rw [Put.node] at h
    exact wrote_node_of_tag 0 ((wrote_string h).map _)
  | .lineBreak, out, out', h => by
    rw [Put.node] at h
    cases h
    exact wrote_node_of_tag 1 (wrote_pure _ _)
  | .glue, out, out', h => by
    rw [Put.node] at h
    cases h
    exact wrote_node_of_tag 2 (wrote_pure _ _)
  | .divert d, out, out', h => by
    rw [Put.node] at h
    exact wrote_node_of_tag 3 ((wrote_divert h).map _)
  | .choice i entries, out, out', h => by
    rw [Put.node] at h
    obtain ⟨counted, hcount, h⟩ := Outcome.of_bind_eq_ok h
    have heach := wroteEach_entries entries h
    refine wrote_node_of_tag 4 ((wrote_id _ i).andThen ?_)
    exact (heach.counted (wrote_count16 hcount)).map _
  | .marker m, out, out', h => by
    rw [Put.node] at h
    cases h
    have hmarker : markerOf? (markerCode m) = some m := by
      cases m <;> rfl
    exact wrote_node_of_tag 5 ((wrote_tagged hmarker .marker _).map _)
  | .tag s, out, out', h => by
    rw [Put.node] at h
    exact wrote_node_of_tag 6 ((wrote_string h).map _)
  | .interpolation e, out, out', h => by
    rw [Put.node] at h
    exact wrote_node_of_tag 7 ((wrote_expression h).map _)
  | .conditional subject branches otherwise, out, out', h => by
    rw [Put.node] at h
    obtain ⟨asked, hsubject, h⟩ := Outcome.of_bind_eq_ok h
    obtain ⟨counted, hcount, h⟩ := Outcome.of_bind_eq_ok h
    obtain ⟨branched, hbranches, hotherwise⟩ := Outcome.of_bind_eq_ok h
    have heach := wroteEach_branches branches hbranches
    have hasked := wrote_optional (fun e _ => wrote_expression) hsubject
    rw [List.flatMap_singleton'] at hasked
    refine wrote_node_of_tag 8
      (hasked.bind (f := (Node.conditional · branches otherwise)) fun subject' _ => ?_)
    refine (heach.counted (wrote_count16 hcount)).bind
      (f := (Node.conditional subject' · otherwise)) fun branches' _ => ?_
    exact (wrote_otherwise otherwise hotherwise).map _
  | .sequence i kind groups, out, out', h => by
    rw [Put.node] at h
    obtain ⟨counted, hcount, h⟩ := Outcome.of_bind_eq_ok h
    have heach := wroteEach_groups groups h
    have hkind : sequenceOf? (sequenceCode kind) = some kind := by
      cases kind <;> rfl
    refine wrote_node_of_tag 9 ((wrote_id _ i).andThen ?_)
    refine (wrote_tagged hkind .sequenceKind _).andThen ?_
    exact (heach.counted (wrote_count16 hcount)).map _
  | .global g, out, out', h => by
    rw [Put.node] at h
    exact wrote_node_of_tag 10 ((wrote_global h).map _)
  | .logic e, out, out', h => by
    rw [Put.node] at h
    exact wrote_node_of_tag 11 ((wrote_expression h).map _)
  | .list l, out, out', h => by
    rw [Put.node] at h
    exact wrote_node_of_tag 12 ((wrote_list h).map _)
termination_by structural n => n

theorem wroteEach_nodes : (content : List Node) → ∀ {out out' : Written},
    Put.nodes out content = .ok out' →
      WroteEach unboundedNode out out' (expressions content) content
  | [], out, out', h => by
    rw [Put.nodes] at h
    cases h
    exact wroteEach_nil _ _
  | n :: rest, out, out', h => by
    rw [Put.nodes] at h
    obtain ⟨mid, hfirst, h⟩ := Outcome.of_bind_eq_ok h
    exact WroteEach.cons (wrote_node n hfirst) (wroteEach_nodes rest h)
termination_by structural content => content

theorem wroteEach_entries : (entries : List Entry) → ∀ {out out' : Written},
    Put.entriesOf out entries = .ok out' →
      WroteEach (Get.entry unbounded) out out' (entryExpressions entries) entries
  | [], out, out', h => by
    rw [Put.entriesOf] at h
    cases h
    exact wroteEach_nil _ _
  | ⟨text, result, sticky, conditions, fallback, immediate⟩ :: rest, out, out', h => by
    rw [Put.entriesOf] at h
    obtain ⟨counted, hcount, h⟩ := Outcome.of_bind_eq_ok h
    obtain ⟨shown, htext, h⟩ := Outcome.of_bind_eq_ok h
    obtain ⟨counted', hcount', h⟩ := Outcome.of_bind_eq_ok h
    obtain ⟨ended, hresult, h⟩ := Outcome.of_bind_eq_ok h
    obtain ⟨guarded, hconditions, h⟩ := Outcome.of_bind_eq_ok h
    have hrest := wroteEach_entries rest h
    rw [entryExpressions, ← List.append_assoc (expressions result), ← List.append_assoc]
    refine WroteEach.cons ?_ hrest
    refine (wrote_byte out (entryCode sticky fallback immediate)).andThen ?_
    obtain ⟨hsticky, hfallback, himmediate⟩ := entryCode_marks sticky fallback immediate
    rw [hsticky, hfallback, himmediate]
    refine (wrote_content hcount (wroteEach_nodes text htext)).bind
      (f := (Entry.mk · result sticky conditions fallback immediate)) fun text' _ => ?_
    refine (wrote_content hcount' (wroteEach_nodes result hresult)).bind
      (f := (Entry.mk text' · sticky conditions fallback immediate)) fun result' _ => ?_
    exact (wrote_expressions hconditions).map _
termination_by structural entries => entries

theorem wroteEach_branches : (branches : List Branch) → ∀ {out out' : Written},
    Put.branchesOf out branches = .ok out' →
      WroteEach (Get.branch unbounded) out out' (branchExpressions branches) branches
  | [], out, out', h => by
    rw [Put.branchesOf] at h
    cases h
    exact wroteEach_nil _ _
  | ⟨condition, content⟩ :: rest, out, out', h => by
    rw [Put.branchesOf] at h
    obtain ⟨asked, hcondition, h⟩ := Outcome.of_bind_eq_ok h
    obtain ⟨counted, hcount, h⟩ := Outcome.of_bind_eq_ok h
    obtain ⟨ended, hcontent, h⟩ := Outcome.of_bind_eq_ok h
    have hrest := wroteEach_branches rest h
    show WroteEach _ _ _ (([condition] ++ expressions content) ++ branchExpressions rest) _
    refine WroteEach.cons ?_ hrest
    refine (wrote_expression hcondition).bind (f := (Branch.mk · content)) fun condition' _ => ?_
    exact (wrote_content hcount (wroteEach_nodes content hcontent)).map _
termination_by structural branches => branches

theorem wrote_otherwise : (otherwise : Option (List Node)) → ∀ {out out' : Written},
    Put.optionalContent out otherwise = .ok out' →
      Wrote (Get.optional unbounded) out out' (optionalExpressions otherwise) otherwise
  | none, out, out', h => by
    rw [Put.optionalContent] at h
    cases h
    exact (wrote_bool out false).andThen (wrote_pure _ none)
  | some content, out, out', h => by
    rw [Put.optionalContent] at h
    obtain ⟨counted, hcount, h⟩ := Outcome.of_bind_eq_ok h
    refine (wrote_bool out true).andThen ?_
    exact (wrote_content hcount (wroteEach_nodes content h)).map _
termination_by structural otherwise => otherwise

theorem wroteEach_groups : (groups : List (List Node)) → ∀ {out out' : Written},
    Put.groupsOf out groups = .ok out' →
      WroteEach unbounded out out' (groupExpressions groups) groups
  | [], out, out', h => by
    rw [Put.groupsOf] at h
    cases h
    exact wroteEach_nil _ _
  | group :: rest, out, out', h => by
    rw [Put.groupsOf] at h
    obtain ⟨counted, hcount, h⟩ := Outcome.of_bind_eq_ok h
    obtain ⟨ended, hgroup, h⟩ := Outcome.of_bind_eq_ok h
    have hfirst := wrote_content hcount (wroteEach_nodes group hgroup)
    exact WroteEach.cons hfirst (wroteEach_groups rest h)
termination_by structural groups => groups

end

/-! ## Knots -/

theorem wrote_parameter {p : Parameter} {out out' : Written}
    (h : Put.parameter out p = .ok out') : Wrote Get.parameter out out' [] p := by
  obtain ⟨named, hname, h⟩ := Outcome.of_bind_eq_ok h
  cases h
  exact (wrote_string hname).andThen ((wrote_bool named p.byRef).map _)

theorem wrote_gather {g : Gather} {out out' : Written} (h : Put.gather out g = .ok out') :
    Wrote Get.gather out out' [] g := by
  obtain ⟨named, hname, h⟩ := Outcome.of_bind_eq_ok h
  have hlevel : Wrote (Get.number 2) (Put.id named g.id)
      (Put.number (Put.id named g.id) 2 g.level.toNat) [] g.level.toNat :=
    wrote_number g.level.toNat_lt _
  refine (wrote_string hname).andThen ((wrote_id named g.id).andThen (hlevel.andThen ?_))
  rw [UInt16.ofNat_toNat]
  exact (wrote_count32 h).map _

theorem wrote_stitch {s : Stitch} {out out' : Written} (h : Put.stitch out s = .ok out') :
    Wrote Get.stitch out out' [] s := by
  obtain ⟨named, hname, h⟩ := Outcome.of_bind_eq_ok h
  obtain ⟨placed, hoffset, h⟩ := Outcome.of_bind_eq_ok h
  refine (wrote_string hname).andThen ((wrote_id named s.id).andThen ?_)
  exact (wrote_count32 hoffset).andThen ((wrote_plain (fun _ _ => wrote_gather) h).map _)

theorem wrote_knot {k : Knot} {out out' : Written} (h : Put.knot out k = .ok out') :
    Wrote (knotBy unbounded) out out' (expressions k.objects) k := by
  obtain ⟨named, hname, h⟩ := Outcome.of_bind_eq_ok h
  obtain ⟨called, hparameters, h⟩ := Outcome.of_bind_eq_ok h
  obtain ⟨divided, hstitches, h⟩ := Outcome.of_bind_eq_ok h
  obtain ⟨gathered, hgathers, h⟩ := Outcome.of_bind_eq_ok h
  obtain ⟨counted, hcount, h⟩ := Outcome.of_bind_eq_ok h
  refine (wrote_string hname).andThen ((wrote_id named k.id).andThen ?_)
  refine (wrote_plain (fun _ _ => wrote_parameter) hparameters).andThen ?_
  refine (wrote_plain (fun _ _ => wrote_stitch) hstitches).andThen ?_
  refine (wrote_plain (fun _ _ => wrote_gather) hgathers).andThen ?_
  refine (wrote_bool gathered k.isFunction).andThen ?_
  exact (wrote_content hcount (wroteEach_nodes k.objects h)).map _

/-! ## Files -/

theorem wrote_header (out : Written) :
    Wrote Get.header out (Put.byte (out ++ magic.toArray) version) [] () := by
  have hmagic : Wrote (Get.take magic.length) out (out ++ magic.toArray) [] magic :=
    (settles_take magic).wrote (by simp)
  exact hmagic.andThen ((wrote_byte (out ++ magic.toArray) version).andThen (wrote_pure _ ()))

theorem wrote_script {s : Script} {out out' : Written} (h : Put.script out s = .ok out') :
    Wrote (knotsBy unbounded) out out' s.expressions s.knots := by
  obtain ⟨counted, hcount, h⟩ := Outcome.of_bind_eq_ok h
  have heach := wroteEach_each (fun _ _ => wrote_knot) h
  exact (wrote_header out).andThen (heach.counted (wrote_count32 hcount))

/-- What the file of a story gives back. -/
theorem recalls_of_encode {script : Script} {bytes : Bytes} (h : encode script = .ok bytes) :
    Recalls (knotsBy unbounded) bytes script.expressions script.knots := by
  obtain ⟨out, hout, h⟩ := Outcome.of_bind_eq_ok h
  obtain ⟨written, hwritten, hrecalls⟩ := wrote_script hout
  have hbytes : bytes = written := by
    cases h
    rw [hwritten]
    rfl
  rwa [hbytes]

/-- A story that can be written is read as it was written, with anything behind it: every
part of every knot is the same, and of every expression also the tokens and their order. -/
theorem decode_encode {script : Script} {bytes : Bytes}
    (hread : ∀ e ∈ script.expressions, e.IsRead) (h : encode script = .ok bytes) (tail : Bytes) :
    decode (bytes ++ tail) = .ok script := by
  rw [decode_eq_unbounded, decodeBy]
  cases recalls_of_encode h with
  | copy knots hsettles _ hsame =>
      rw [hsettles.whole tail, hsame hread]
      dsimp only [Except.map]
      rw [Script.ofKnots_knots]
  | unread first _ =>
      obtain ⟨hmem, hunread⟩ := first.not_rereads
      obtain ⟨source, hsource⟩ := hread _ hmem
      exact absurd ⟨_, Expression.parse_source hsource⟩ hunread

/-- `x++`, as it is read with white space around it. -/
def stepping : Expression :=
  { source := "x++", tokens := [.ident "x", .operator .increment .after], order := [0, 1] }

/-- A story with alternatives in a conditional in the result of a choice, and a stitch behind
it. -/
def nested : Script where
  knots :=
    [{ name := "hall", id := ⟨300⟩, parameters := [⟨"x", true⟩]
       objects :=
         [.choice ⟨7⟩
           [⟨[.text "Wait"],
             [.conditional (some stepping) [⟨stepping, [.sequence ⟨8⟩ .cycle [[.glue], []]]⟩]
               (some [.lineBreak])],
             true, [stepping], false, false⟩]]
       stitches := [⟨"end", ⟨9⟩, 1, []⟩], gathers := [⟨"", ⟨10⟩, 1, 0⟩], isFunction := false }]
  sound := rfl

/-- The nested story is read as it was written, with two bytes behind it. -/
theorem decode_encode_nested :
    (∀ e ∈ nested.expressions, e.IsRead) ∧
      ∃ bytes, encode nested = .ok bytes ∧ decode (bytes ++ [0, 255]) = .ok nested := by
  have hread : ∀ e ∈ nested.expressions, e.IsRead := by
    intro e he
    have heq : e = stepping := by
      simpa using (show e ∈ [stepping, stepping, stepping] from he)
    rw [heq]
    exact ⟨" x++\n", rfl⟩
  have hok : (encode nested).isOk = true := by decide +kernel
  cases hbytes : encode nested with
  | ok bytes => exact ⟨hread, bytes, rfl, decode_encode hread hbytes [0, 255]⟩
  | error fault =>
      rw [hbytes] at hok
      cases hok

end Binary

end Skein
