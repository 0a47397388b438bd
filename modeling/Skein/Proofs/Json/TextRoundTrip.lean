import Skein.Json.Printer
import Skein.Json.Reader
import Skein.Proofs.Number.Digits

set_option autoImplicit false

/-!
# Json: a document is read from its text

A document that is written over several lines is seen again when the text is read, if its numbers
are whole and fit in 64 bits and its containers are not nested deeper than the reader allows.
Between the document and its text stand its tokens: the text is cut into them one by one, wherever
the lines break, and from them the document is put together again.
-/

namespace Skein

/-! ## Outlines of documents -/

namespace Outline

theorem ofItems_eq (done : List Outline) (items : List Json) :
    ofItems done items = done.reverse ++ items.map ofJson := by
  induction items generalizing done with
  | nil => simp [ofItems]
  | cons item rest ih => rw [ofItems, ih, List.reverse_cons, List.append_assoc]; rfl

theorem ofFields_eq (done : List (Option String × Outline)) (fields : List (String × Json)) :
    ofFields done fields = done.reverse ++ fields.map fun f => (some f.1, ofJson f.2) := by
  induction fields generalizing done with
  | nil => simp [ofFields]
  | cons field rest ih =>
      obtain ⟨name, value⟩ := field
      rw [ofFields, ih, List.reverse_cons, List.append_assoc]
      rfl

theorem ofJson_array (items : List Json) : ofJson (.array items) = .array (items.map ofJson) := by
  rw [ofJson, ofItems_eq]
  rfl

theorem ofJson_object (fields : List (String × Json)) :
    ofJson (.object fields) = .object (fields.map fun f => (some f.1, ofJson f.2)) := by
  rw [ofJson, ofFields_eq]
  rfl

end Outline

namespace Json

/-! ## Documents that can be written -/

/-- A document whose numbers are whole and fit in 64 bits. -/
inductive Writable : Json → Prop where
  | null : Writable .null
  | bool (b : Bool) : Writable (.bool b)
  | int {n : Int} (lower : Int64.minValue.toInt ≤ n) (upper : n < UInt64.size) : Writable (.int n)
  | string (s : String) : Writable (.string s)
  | array {items : List Json} (h : ∀ item ∈ items, Writable item) : Writable (.array items)
  | object {fields : List (String × Json)} (h : ∀ field ∈ fields, Writable field.2) :
      Writable (.object fields)

attribute [simp] Writable.null Writable.bool Writable.string

@[simp] theorem writable_int_iff {n : Int} :
    Writable (.int n) ↔ Int64.minValue.toInt ≤ n ∧ n < UInt64.size :=
  ⟨fun | .int lower upper => ⟨lower, upper⟩, fun h => .int h.1 h.2⟩

@[simp] theorem writable_array_iff {items : List Json} :
    Writable (.array items) ↔ ∀ item ∈ items, Writable item :=
  ⟨fun | .array h => h, .array⟩

@[simp] theorem writable_object_iff {fields : List (String × Json)} :
    Writable (.object fields) ↔ ∀ field ∈ fields, Writable field.2 :=
  ⟨fun | .object h => h, .object⟩

mutual

/-- How deep the containers of a document are nested. -/
def depth : Json → Nat
  | array items => depthItems items + 1
  | object fields => depthFields fields + 1
  | _ => 0

/-- The depth of the deepest item. -/
def depthItems : List Json → Nat
  | [] => 0
  | item :: rest => max item.depth (depthItems rest)

/-- The depth of the deepest field. -/
def depthFields : List (String × Json) → Nat
  | [] => 0
  | (_, value) :: rest => max value.depth (depthFields rest)

end

mutual

/-- The tokens of a document. -/
def tokensOf : Json → List Token
  | null => [.scalar .null]
  | bool b => [.scalar (.bool b)]
  | int n => [.scalar (.int n)]
  | real literal => [.scalar (.real literal)]
  | string s => [.scalar (.string s)]
  | array [] => [.openArray, .closeArray]
  | array (item :: rest) =>
    .openArray :: (tokensOf item ++ (tokensOfItems rest ++ [.closeArray]))
  | object [] => [.openObject, .closeObject]
  | object ((key, value) :: rest) =>
    .openObject :: .scalar (.string key) :: .colon ::
      (tokensOf value ++ (tokensOfFields rest ++ [.closeObject]))

/-- The tokens of the items after the first. -/
def tokensOfItems : List Json → List Token
  | [] => []
  | item :: rest => .comma :: (tokensOf item ++ tokensOfItems rest)

/-- The tokens of the fields after the first. -/
def tokensOfFields : List (String × Json) → List Token
  | [] => []
  | (key, value) :: rest =>
    .comma :: .scalar (.string key) :: .colon :: (tokensOf value ++ tokensOfFields rest)

end

/-! ## Cutting a text -/

/-- How a text is cut into tokens. -/
inductive Cut : List Char → List Token → Prop where
  | done {cs : List Char} (h : cs.dropWhile isSpace = []) : Cut cs []
  | next {cs rest after : List Char} {c : Char} {token : Token} {more : List Token}
      (hskip : cs.dropWhile isSpace = c :: rest) (htoken : firstToken? c rest = some (token, after))
      (h : Cut after more) : Cut cs (token :: more)

/-- The reader finds the tokens of a cut, with any bound above their number. -/
theorem tokens_of_cut {cs : List Char} {list : List Token} (h : Cut cs list)
    (found : List Token) {bound : Nat} (hbound : list.length < bound) :
    tokens found bound cs = found.reverse ++ list := by
  induction h generalizing found bound with
  | done hskip =>
      obtain ⟨bound, rfl⟩ := Nat.exists_eq_add_one_of_ne_zero (Nat.ne_zero_of_lt hbound)
      rw [tokens, hskip]
      exact (List.append_nil _).symm
  | next hskip htoken _ ih =>
      obtain ⟨bound, rfl⟩ := Nat.exists_eq_add_one_of_ne_zero (Nat.ne_zero_of_lt hbound)
      rw [tokens, hskip]
      dsimp only
      rw [htoken]
      dsimp only
      rw [ih _ (Nat.lt_of_succ_lt_succ hbound), List.reverse_cons, List.append_assoc]
      rfl

theorem length_readString {s : Spelling} {cs rest : List Char} {value : Outline}
    (h : readString s cs = some (value, rest)) : rest.length ≤ cs.length := by
  fun_induction readString s cs with
  | case1 s after => cases h; simp
  | case2 s a b c d after n hunit ih => exact Nat.le_trans (ih h) (by simp; omega)
  | case4 s c after hc x hx ih => exact Nat.le_trans (ih h) (by simp; omega)
  | case7 s c after _ _ _ hplain ih => exact Nat.le_trans (ih h) (by simp)
  | case3 | case5 | case6 | case8 => cases h

/-- A token takes at least its first character. -/
theorem length_firstToken? {c : Char} {rest after : List Char} {token : Token}
    (h : firstToken? c rest = some (token, after)) : after.length ≤ rest.length := by
  have hdrop (p : Char → Bool) : (rest.dropWhile p).length ≤ rest.length :=
    (List.dropWhile_sublist p).length_le
  unfold firstToken? at h
  split at h
  case h_7 =>
    obtain ⟨⟨value, behind⟩, hstring, heq⟩ := Option.map_eq_some_iff.mp h
    cases heq
    exact length_readString hstring
  case h_8 =>
    split at h
    · obtain ⟨value, _, heq⟩ := Option.map_eq_some_iff.mp h
      cases heq
      exact hdrop isNumberChar
    · obtain ⟨value, _, heq⟩ := Option.map_eq_some_iff.mp h
      cases heq
      exact hdrop Char.isAlpha
  all_goals
    cases h
    exact Nat.le_refl _

theorem Cut.length_le {cs : List Char} {list : List Token} (h : Cut cs list) :
    list.length ≤ cs.length := by
  induction h with
  | done _ => exact Nat.zero_le _
  | @next cs rest after c token more hskip htoken _ ih =>
      have htaken := length_firstToken? htoken
      have hskipped : (cs.dropWhile isSpace).length ≤ cs.length :=
        (List.dropWhile_sublist isSpace).length_le
      rw [hskip] at hskipped
      simp only [List.length_cons] at hskipped ⊢
      omega

/-- A text is seen as what its tokens are put together to. -/
theorem outline_of_cut {levels : Nat} {text : String} {list : List Token}
    (h : Cut text.toList list) : outline levels text = assemble levels .value [] list := by
  show assemble levels .value [] (tokens [] (text.toList.length + 1) text.toList) = _
  rw [tokens_of_cut h [] (Nat.lt_succ_of_le h.length_le)]
  rfl

/-! ## Pieces of text -/

/-- A text in front of which a number or a word ends. -/
def Ends (cs : List Char) : Prop := ∀ c ∈ cs.head?, isNumberChar c = false ∧ c.isAlpha = false

theorem ends_nil : Ends [] := nofun

theorem ends_cons {c : Char} (cs : List Char) (h : isNumberChar c = false ∧ c.isAlpha = false) :
    Ends (c :: cs) := by
  intro other hother
  obtain rfl := Option.some.inj hother
  exact h

theorem ends_newline (level : Nat) (cs : List Char) : Ends ((Json.newline level).toList ++ cs) := by
  rw [Json.newline, String.toList_ofList]
  exact ends_cons _ (by decide)

theorem takeWhile_append {p : Char → Bool} {front back : List Char}
    (hfront : ∀ c ∈ front, p c = true) (hback : ∀ c ∈ back.head?, p c = false) :
    (front ++ back).takeWhile p = front ∧ (front ++ back).dropWhile p = back := by
  rw [List.takeWhile_append_of_pos hfront, List.dropWhile_append_of_pos hfront]
  cases back with
  | nil => simp
  | cons c rest =>
      have hc := hback c rfl
      simp [hc]

namespace Cut

variable {cs : List Char} {list : List Token}

/-- White space in front changes nothing. -/
theorem spaces (h : Cut cs list) {blank : List Char} (hblank : ∀ c ∈ blank, isSpace c = true) :
    Cut (blank ++ cs) list := by
  have hskip : (blank ++ cs).dropWhile isSpace = cs.dropWhile isSpace :=
    List.dropWhile_append_of_pos hblank
  cases h with
  | done hdone => exact .done (hskip.trans hdone)
  | next hnext htoken hmore => exact .next (hskip.trans hnext) htoken hmore

theorem newline (h : Cut cs list) (level : Nat) : Cut ((Json.newline level).toList ++ cs) list := by
  refine h.spaces fun c hc => ?_
  rw [Json.newline, String.toList_ofList, List.mem_cons, List.mem_replicate] at hc
  rcases hc with rfl | ⟨_, rfl⟩ <;> rfl

/-- A token at the front of a text that does not start with white space. -/
theorem front {c : Char} {rest : List Char} {token : Token} (hc : isSpace c = false)
    (htoken : firstToken? c rest = some (token, cs)) (h : Cut cs list) :
    Cut (c :: rest) (token :: list) :=
  .next (by rw [List.dropWhile_cons, hc]; rfl) htoken h

theorem openArray (h : Cut cs list) : Cut ('[' :: cs) (.openArray :: list) := front rfl rfl h

theorem closeArray (h : Cut cs list) : Cut (']' :: cs) (.closeArray :: list) := front rfl rfl h

theorem openObject (h : Cut cs list) : Cut ('\x7b' :: cs) (.openObject :: list) := front rfl rfl h

theorem closeObject (h : Cut cs list) : Cut ('\x7d' :: cs) (.closeObject :: list) := front rfl rfl h

theorem comma (h : Cut cs list) : Cut (',' :: cs) (.comma :: list) := front rfl rfl h

theorem colon (h : Cut cs list) : Cut (':' :: cs) (.colon :: list) := front rfl rfl h

/-- A bare word in front of a text that ends it. -/
theorem word {c : Char} {word : List Char} {value : Outline} (h : Cut cs list) (hends : Ends cs)
    (hc : isSpace c = false) (hword : ∀ c ∈ word, c.isAlpha = true)
    (hvalue : ofWord? (c :: word) = some value)
    (hfirst : ∀ rest, firstToken? c rest = (ofWord? (c :: rest.takeWhile Char.isAlpha)).map
      fun value => (.scalar value, rest.dropWhile Char.isAlpha)) :
    Cut (c :: word ++ cs) (.scalar value :: list) := by
  obtain ⟨htake, hdrop⟩ := takeWhile_append hword fun c hc => (hends c hc).2
  rw [List.cons_append]
  refine front hc ?_ h
  rw [hfirst, htake, hdrop, hvalue]
  rfl

theorem null (h : Cut cs list) (hends : Ends cs) :
    Cut ("null".toList ++ cs) (.scalar .null :: list) :=
  word h hends rfl (List.all_eq_true.mp rfl) rfl fun _ => rfl

theorem bool (b : Bool) (h : Cut cs list) (hends : Ends cs) :
    Cut ((if b then "true" else "false").toList ++ cs) (.scalar (.bool b) :: list) := by
  cases b with
  | true => exact word h hends rfl (List.all_eq_true.mp rfl) rfl fun _ => rfl
  | false => exact word h hends rfl (List.all_eq_true.mp rfl) rfl fun _ => rfl

end Cut

/-! ## Numbers -/

theorem isNumberChar_of_isDigit {c : Char} (h : c.isDigit = true) : isNumberChar c = true := by
  simp [isNumberChar, h]

theorem isWhole_toDigits (n : Nat) : isWhole (Nat.toDigits 10 n) = true := by
  by_cases hn : n = 0
  · rw [hn]
    rfl
  · obtain ⟨c, rest, hdigits, hc⟩ := Number.toDigits_eq_cons hn
    rw [hdigits]
    unfold isWhole
    split
    · contradiction
    · rfl
    · next heq =>
      cases heq
      simpa using hc

theorem takeWhile_toDigits (n : Nat) :
    (Nat.toDigits 10 n).takeWhile Char.isDigit = Nat.toDigits 10 n ∧
      (Nat.toDigits 10 n).dropWhile Char.isDigit = [] := by
  have hdigits : ∀ c ∈ Nat.toDigits 10 n, c.isDigit = true :=
    fun _ => Number.isDigit_of_mem_toDigits
  simpa using takeWhile_append hdigits fun c (hc : c ∈ ([] : List Char).head?) => nomatch hc

theorem number?_toDigits {n : Nat} (hn : n < UInt64.size) :
    number? (Nat.toDigits 10 n) = some (.int n) := by
  obtain ⟨htake, hdrop⟩ := takeWhile_toDigits n
  have hsign : (Nat.toDigits 10 n).head? ≠ some '-' := by
    intro hhead
    exact absurd (Number.isDigit_of_mem_toDigits (List.mem_of_mem_head? hhead)) (by decide)
  unfold number?
  simpa [hsign, htake, hdrop, isWhole_toDigits, isTail, Number.digitsValue_toDigits] using hn

theorem number?_neg_toDigits {n : Nat} (hpos : 0 < n) (hn : Int64.minValue.toInt ≤ -n) :
    number? ('-' :: Nat.toDigits 10 n) = some (.int (-n)) := by
  obtain ⟨htake, hdrop⟩ := takeWhile_toDigits n
  have hsize : n ≤ 9223372036854775808 := by
    rw [Int64.toInt_minValue] at hn
    omega
  unfold number?
  simpa [htake, hdrop, isWhole_toDigits, isTail, Number.digitsValue_toDigits]
    using And.intro hpos hsize

theorem firstToken?_of_isNumberChar {c : Char} (hc : isNumberChar c = true) (rest : List Char) :
    firstToken? c rest =
      (number? (c :: rest.takeWhile isNumberChar)).map
        fun value => (.scalar value, rest.dropWhile isNumberChar) := by
  unfold firstToken?
  split
  case h_8 => rw [if_pos hc]
  all_goals exact absurd hc (by decide)

/-- A number in front of a text that ends it. -/
theorem Cut.number {cs literal : List Char} {list : List Token} {value : Outline}
    (h : Cut cs list) (hends : Ends cs) (hchars : ∀ c ∈ literal, isNumberChar c = true)
    (hvalue : number? literal = some value) : Cut (literal ++ cs) (.scalar value :: list) := by
  cases literal with
  | nil => cases hvalue
  | cons c rest =>
      obtain ⟨hc, hrest⟩ := List.forall_mem_cons.mp hchars
      obtain ⟨htake, hdrop⟩ := takeWhile_append hrest fun c hc => (hends c hc).1
      rw [List.cons_append]
      refine front ?_ ?_ h
      · cases hspace : isSpace c with
        | false => rfl
        | true =>
            simp only [isSpace, Bool.or_eq_true, decide_eq_true_eq] at hspace
            rcases hspace with ((rfl | rfl) | rfl) | rfl <;> cases hc
      · rw [firstToken?_of_isNumberChar hc, htake, hdrop, hvalue]
        rfl

theorem Cut.int {cs : List Char} {list : List Token} {n : Int}
    (lower : Int64.minValue.toInt ≤ n) (upper : n < UInt64.size) (hends : Ends cs)
    (h : Cut cs list) :
    Cut ((toString n).toList ++ cs) (.scalar (.int n) :: list) := by
  have hdigits (m : Nat) : ∀ c ∈ Nat.toDigits 10 m, isNumberChar c = true :=
    fun _ hc => isNumberChar_of_isDigit (Number.isDigit_of_mem_toDigits hc)
  rw [Int.toString_eq_repr, Int.repr_eq_if]
  split
  · next hn =>
    obtain ⟨m, rfl⟩ := Int.eq_ofNat_of_zero_le hn
    rw [Int.toNat_natCast, Nat.repr_eq_ofList_toDigits, String.toList_ofList]
    exact number h hends (hdigits m) (number?_toDigits (Int.ofNat_lt.mp upper))
  · next hn =>
    obtain ⟨m, hm⟩ := Int.eq_ofNat_of_zero_le (show 0 ≤ -n by omega)
    obtain rfl : n = -(m : Int) := by omega
    have hliteral : ("-" ++ String.ofList (Nat.toDigits 10 m)).toList =
        '-' :: Nat.toDigits 10 m := by
      simp
    rw [Int.neg_neg, Int.toNat_natCast, Nat.repr_eq_ofList_toDigits, hliteral]
    exact number h hends (List.forall_mem_cons.mpr ⟨rfl, hdigits m⟩)
      (number?_neg_toDigits (by omega) lower)

/-! ## Strings -/

/-- The value of the four digits of an escape. -/
def escapedUnit? : List Char → Option Nat
  | [a, b, c, d] => unit? a b c d
  | _ => none

theorem escapedUnit?_hexDigits : ∀ n < 0x20,
    escapedUnit? (List.replicate (4 - (Text.hexDigits n).length) '0' ++ Text.hexDigits n) =
      some n := by decide

theorem readString_unit {s : Spelling} {digits : List Char} {n : Nat}
    (h : escapedUnit? digits = some n) (rest : List Char) :
    readString s ('\\' :: 'u' :: digits ++ rest) = readString (s.addUnit n) rest := by
  unfold escapedUnit? at h
  split at h
  · simp only [List.cons_append, List.nil_append, readString, h]
  · cases h

theorem addUnit_toNat {c : Char} (hc : c.toNat < 0x20) (past : List Char) :
    Spelling.addUnit { chars := some past } c.toNat = { chars := some (c :: past) } := by
  have hleading : isLeading c.toNat = false := by
    simp only [isLeading, Bool.and_eq_false_imp, decide_eq_true_eq]
    omega
  have htrailing : isTrailing c.toNat = false := by
    simp only [isTrailing, Bool.and_eq_false_imp, decide_eq_true_eq]
    omega
  simp [Spelling.addUnit, Spelling.addChar, hleading, htrailing, Char.ofNat_toNat]

theorem readString_plain {c : Char} (hquote : c ≠ '"') (hbackslash : c ≠ '\\')
    (hplain : ¬c.toNat < 0x20) (past rest : List Char) :
    readString { chars := some past } (c :: rest) =
      readString { chars := some (c :: past) } rest := by
  rw [readString.eq_def]
  split
  · next heq => exact absurd (List.cons.inj heq).1 hquote
  · next heq => exact absurd (List.cons.inj heq).1 hbackslash
  · next heq => exact absurd (List.cons.inj heq).1 hbackslash
  · next heq =>
    obtain ⟨rfl, rfl⟩ := List.cons.inj heq
    rw [if_neg (by simp [hplain, hbackslash])]
    rfl
  · next heq => cases heq

/-- A character is read from its escape. -/
theorem readString_escapeChar (c : Char) (past rest : List Char) :
    readString { chars := some past } (escapeChar c ++ rest) =
      readString { chars := some (c :: past) } rest := by
  unfold escapeChar
  split
  case h_8 hquote hbackslash _ _ _ _ _ =>
    split
    · next hcontrol =>
      have hunit := escapedUnit?_hexDigits c.toNat hcontrol
      refine (readString_unit hunit rest).trans ?_
      rw [addUnit_toNat hcontrol]
    · next hplain => exact readString_plain hquote hbackslash hplain past rest
  all_goals rfl

theorem readString_escaped (cs past rest : List Char) :
    readString { chars := some past } (cs.flatMap escapeChar ++ '"' :: rest) =
      some (.string (String.ofList (past.reverse ++ cs)), rest) := by
  induction cs generalizing past with
  | nil => simp [readString, Spelling.value]
  | cons c cs ih =>
      rw [List.flatMap_cons, List.append_assoc, readString_escapeChar, ih, List.reverse_cons,
        List.append_assoc]
      rfl

theorem Cut.string {cs : List Char} {list : List Token} (s : String) (h : Cut cs list) :
    Cut ((quoted s).toList ++ cs) (.scalar (.string s) :: list) := by
  rw [quoted, String.toList_ofList, List.cons_append, List.cons_append, List.append_assoc]
  refine front rfl ?_ h
  show (readString {} (s.toList.flatMap escapeChar ++ '"' :: cs)).map _ = _
  rw [readString_escaped, Option.map_some, List.reverse_nil, List.nil_append, String.ofList_toList]

/-! ## Documents -/

/-- A document whose text is cut into its tokens, at any level, behind whatever was written before
and in front of any text that ends it. -/
def Legible (json : Json) : Prop :=
  ∀ (level : Nat) (out : String) {cs : List Char} {list : List Token}, Ends cs → Cut cs list →
    ∃ text, (writePretty level out json).toList ++ cs = out.toList ++ text ∧
      Cut text (tokensOf json ++ list)

theorem Legible.items {items : List Json} (hitems : ∀ item ∈ items, item.Legible) (level : Nat)
    (out : String) {cs : List Char} {list : List Token} (hends : Ends cs) (h : Cut cs list) :
    ∃ text, (writePrettyItems level out items).toList ++ cs = out.toList ++ text ∧ Ends text ∧
      Cut text (tokensOfItems items ++ list) := by
  induction items generalizing out with
  | nil => exact ⟨cs, by rw [writePrettyItems], hends, h⟩
  | cons item rest ih =>
      obtain ⟨hitem, hrest⟩ := List.forall_mem_cons.mp hitems
      -- What the later items add is cut first: it is what the text of this item has to end at.
      obtain ⟨behind, hbehind, hstop, hcut⟩ :=
        ih hrest (writePretty level (out ++ "," ++ Json.newline level) item)
      obtain ⟨own, hown, hcut⟩ := hitem level (out ++ "," ++ Json.newline level) hstop hcut
      refine ⟨',' :: ((Json.newline level).toList ++ own), ?_, ends_cons _ (by decide), ?_⟩
      · rw [writePrettyItems, hbehind, hown]
        simp
      · rw [tokensOfItems, List.cons_append, List.append_assoc]
        exact (hcut.newline level).comma

theorem Legible.fields {fields : List (String × Json)} (hfields : ∀ field ∈ fields, field.2.Legible)
    (level : Nat) (out : String) {cs : List Char} {list : List Token} (hends : Ends cs)
    (h : Cut cs list) :
    ∃ text, (writePrettyFields level out fields).toList ++ cs = out.toList ++ text ∧ Ends text ∧
      Cut text (tokensOfFields fields ++ list) := by
  induction fields generalizing out with
  | nil => exact ⟨cs, by rw [writePrettyFields], hends, h⟩
  | cons field rest ih =>
      obtain ⟨key, value⟩ := field
      obtain ⟨hvalue, hrest⟩ := List.forall_mem_cons.mp hfields
      obtain ⟨behind, hbehind, hstop, hcut⟩ :=
        ih hrest (writePretty level (out ++ "," ++ Json.newline level ++ quoted key ++ ": ") value)
      obtain ⟨own, hown, hcut⟩ :=
        hvalue level (out ++ "," ++ Json.newline level ++ quoted key ++ ": ") hstop hcut
      refine ⟨',' :: ((Json.newline level).toList ++ ((quoted key).toList ++ ':' :: ' ' :: own)),
        ?_, ends_cons _ (by decide), ?_⟩
      · rw [writePrettyFields, hbehind, hown]
        simp
      · rw [tokensOfFields, List.cons_append, List.cons_append, List.cons_append, List.append_assoc]
        have hspaced := hcut.spaces (List.forall_mem_singleton.mpr (rfl : isSpace ' ' = true))
        exact (((hspaced.colon).string key).newline level).comma

theorem Writable.legible {json : Json} (h : Writable json) : Legible json := by
  induction h with
  | null =>
      intro level out cs list hends hcut
      exact ⟨_, by rw [writePretty, String.toList_append, List.append_assoc], hcut.null hends⟩
  | bool b =>
      intro level out cs list hends hcut
      exact ⟨_, by rw [writePretty, String.toList_append, List.append_assoc], hcut.bool b hends⟩
  | int lower upper =>
      intro level out cs list hends hcut
      exact ⟨_, by rw [writePretty, String.toList_append, List.append_assoc],
        hcut.int lower upper hends⟩
  | string s =>
      intro level out cs list hends hcut
      exact ⟨_, by rw [writePretty, String.toList_append, List.append_assoc], hcut.string s⟩
  | @array items _ ih =>
      intro level out cs list hends hcut
      cases items with
      | nil => exact ⟨'[' :: ']' :: cs, by simp [writePretty], hcut.closeArray.openArray⟩
      | cons item rest =>
          obtain ⟨hitem, hrest⟩ := List.forall_mem_cons.mp ih
          obtain ⟨behind, hbehind, hstop, hcut⟩ := Legible.items hrest (level + 1)
            (writePretty (level + 1) (out ++ "[" ++ Json.newline (level + 1)) item)
            (ends_newline level (']' :: cs)) (hcut.closeArray.newline level)
          obtain ⟨own, hown, hcut⟩ :=
            hitem (level + 1) (out ++ "[" ++ Json.newline (level + 1)) hstop hcut
          refine ⟨'[' :: ((Json.newline (level + 1)).toList ++ own), ?_, ?_⟩
          · rw [hown] at hbehind
            simpa [writePretty] using hbehind
          · simpa [tokensOf] using (hcut.newline (level + 1)).openArray
  | @object fields _ ih =>
      intro level out cs list hends hcut
      cases fields with
      | nil => exact ⟨'\x7b' :: '\x7d' :: cs, by simp [writePretty], hcut.closeObject.openObject⟩
      | cons field rest =>
          obtain ⟨key, value⟩ := field
          obtain ⟨hvalue, hrest⟩ := List.forall_mem_cons.mp ih
          obtain ⟨behind, hbehind, hstop, hcut⟩ := Legible.fields hrest (level + 1)
            (writePretty (level + 1)
              (out ++ "\x7b" ++ Json.newline (level + 1) ++ quoted key ++ ": ") value)
            (ends_newline level ('\x7d' :: cs)) (hcut.closeObject.newline level)
          obtain ⟨own, hown, hcut⟩ := hvalue (level + 1)
            (out ++ "\x7b" ++ Json.newline (level + 1) ++ quoted key ++ ": ") hstop hcut
          have hspaced := hcut.spaces (List.forall_mem_singleton.mpr (rfl : isSpace ' ' = true))
          refine ⟨'\x7b' ::
            ((Json.newline (level + 1)).toList ++ ((quoted key).toList ++ ':' :: ' ' :: own)),
            ?_, ?_⟩
          · rw [hown] at hbehind
            simpa [writePretty] using hbehind
          · simpa [tokensOf] using ((hspaced.colon.string key).newline (level + 1)).openObject

theorem Writable.cut_pretty {json : Json} (h : Writable json) :
    Cut json.pretty.toList (tokensOf json) := by
  obtain ⟨text, htext, hcut⟩ := h.legible 0 "" ends_nil (.done rfl)
  rw [List.append_nil] at htext hcut
  rw [pretty, htext]
  exact hcut

/-! ## Putting a document together -/

theorem depth_lt_of_mem_array {items : List Json} {item : Json} (h : item ∈ items) :
    item.depth < (Json.array items).depth := by
  have hitems : item.depth ≤ depthItems items := by
    induction items with
    | nil => cases h
    | cons other rest ih =>
        rw [depthItems]
        rcases List.mem_cons.mp h with rfl | h
        · omega
        · have := ih h
          omega
  rw [depth]
  omega

theorem depth_lt_of_mem_object {fields : List (String × Json)} {field : String × Json}
    (h : field ∈ fields) : field.2.depth < (Json.object fields).depth := by
  have hfields : field.2.depth ≤ depthFields fields := by
    induction fields with
    | nil => cases h
    | cons other rest ih =>
        obtain ⟨key, value⟩ := other
        rw [depthFields]
        rcases List.mem_cons.mp h with rfl | h
        · dsimp only
          omega
        · have := ih h
          omega
  rw [depth]
  omega

theorem fewerThan_eq_true {α : Type} {n : Nat} {list : List α} (h : list.length < n) :
    fewerThan n list = true := by
  induction list generalizing n with
  | nil =>
      cases n with
      | zero => cases h
      | succ n => rfl
  | cons a rest ih =>
      cases n with
      | zero => cases h
      | succ n => exact ih (Nat.lt_of_succ_lt_succ h)

theorem assemble_cons {levels : Nat} {stage next : Stage} {stack stack' : List Container}
    {token : Token} (h : advance levels stage stack token = some (next, stack'))
    (list : List Token) :
    assemble levels stage stack (token :: list) = assemble levels next stack' list := by
  rw [assemble, h]

/-- A container that is not nested too deep is kept when it is closed. -/
theorem assemble_close {levels : Nat} {stage : Stage} {stack outer : List Container} {token : Token}
    {container : Outline}
    (h : advance levels stage stack token = some (closed levels outer container))
    (houter : outer.length < levels) (list : List Token) :
    assemble levels stage stack (token :: list) =
      assemble levels (.after container) outer list := by
  rw [closed, fewerThan_eq_true houter] at h
  exact assemble_cons h list

/-- A document that is put together from its tokens, wherever a value may start. -/
def Assembles (levels : Nat) (json : Json) : Prop :=
  ∀ {stage : Stage}, stage = .value ∨ stage = .firstItem → ∀ stack : List Container,
    stack.length + json.depth ≤ levels → ∀ list,
      assemble levels stage stack (tokensOf json ++ list) =
        assemble levels (.after (.ofJson json)) stack list

theorem Assembles.items {levels : Nat} {items : List Json}
    (h : ∀ item ∈ items, item.Assembles levels) {outer : List Container}
    (hlevels : ∀ item ∈ items, outer.length + 1 + item.depth ≤ levels)
    (houter : outer.length < levels) (value : Outline) (past : List Outline) (list : List Token) :
    assemble levels (.after value) (.array past :: outer)
        (tokensOfItems items ++ .closeArray :: list) =
      assemble levels (.after (.array ((value :: past).reverse ++ items.map .ofJson))) outer
        list := by
  induction items generalizing value past with
  | nil =>
      rw [List.map_nil, List.append_nil]
      exact assemble_close rfl houter list
  | cons item rest ih =>
      obtain ⟨hitem, hrest⟩ := List.forall_mem_cons.mp h
      obtain ⟨hlevel, hbelow⟩ := List.forall_mem_cons.mp hlevels
      rw [tokensOfItems, List.cons_append, List.append_assoc, assemble_cons rfl,
        hitem (.inl rfl) (.array (value :: past) :: outer) hlevel, ih hrest hbelow,
        List.reverse_cons, List.append_assoc]
      rfl

theorem Assembles.fields {levels : Nat} {fields : List (String × Json)}
    (h : ∀ field ∈ fields, field.2.Assembles levels) {outer : List Container}
    (hlevels : ∀ field ∈ fields, outer.length + 1 + field.2.depth ≤ levels)
    (houter : outer.length < levels) (value : Outline) (past : List (Option String × Outline))
    (key : Option String) (list : List Token) :
    assemble levels (.after value) (.object past key :: outer)
        (tokensOfFields fields ++ .closeObject :: list) =
      assemble levels
        (.after (.object (((key, value) :: past).reverse ++
          fields.map fun field => (some field.1, .ofJson field.2)))) outer list := by
  induction fields generalizing value past key with
  | nil =>
      rw [List.map_nil, List.append_nil]
      exact assemble_close rfl houter list
  | cons field rest ih =>
      obtain ⟨name, inner⟩ := field
      obtain ⟨hinner, hrest⟩ := List.forall_mem_cons.mp h
      obtain ⟨hlevel, hbelow⟩ := List.forall_mem_cons.mp hlevels
      rw [tokensOfFields, List.cons_append, List.cons_append, List.cons_append, List.append_assoc,
        assemble_cons rfl, assemble_cons rfl, assemble_cons rfl,
        hinner (.inl rfl) (.object ((key, value) :: past) (some name) :: outer) hlevel,
        ih hrest hbelow, List.reverse_cons, List.append_assoc]
      rfl

theorem Writable.assembles {json : Json} (h : Writable json) (levels : Nat) :
    Assembles levels json := by
  induction h with
  | null | bool | int | string =>
      rintro _ (rfl | rfl) stack _ list <;> exact assemble_cons rfl list
  | @array items _ ih =>
      intro stage hstage stack hlevels list
      have houter : stack.length < levels := by rw [depth] at hlevels; omega
      have hopen : advance levels stage stack .openArray =
          some (.firstItem, .array [] :: stack) := by
        rcases hstage with rfl | rfl <;> rfl
      cases items with
      | nil =>
          exact (assemble_cons hopen _).trans (assemble_close rfl houter list)
      | cons item rest =>
          obtain ⟨hitem, hrest⟩ := List.forall_mem_cons.mp ih
          have hbelow : ∀ inner ∈ item :: rest, stack.length + 1 + inner.depth ≤ levels := by
            intro inner hinner
            have := depth_lt_of_mem_array hinner
            omega
          obtain ⟨hlevel, hbelow⟩ := List.forall_mem_cons.mp hbelow
          rw [tokensOf, List.cons_append, List.append_assoc, List.append_assoc, assemble_cons hopen,
            hitem (.inr rfl) (.array [] :: stack) hlevel]
          refine (Assembles.items hrest hbelow houter _ [] list).trans ?_
          rw [Outline.ofJson_array]
          rfl
  | @object fields _ ih =>
      intro stage hstage stack hlevels list
      have houter : stack.length < levels := by rw [depth] at hlevels; omega
      have hopen : advance levels stage stack .openObject = some (.firstKey, stack) := by
        rcases hstage with rfl | rfl <;> rfl
      cases fields with
      | nil =>
          exact (assemble_cons hopen _).trans (assemble_close rfl houter list)
      | cons field rest =>
          have hbelow : ∀ inner ∈ field :: rest, stack.length + 1 + inner.2.depth ≤ levels := by
            intro inner hinner
            have := depth_lt_of_mem_object hinner
            omega
          obtain ⟨key, value⟩ := field
          obtain ⟨hvalue, hrest⟩ := List.forall_mem_cons.mp ih
          obtain ⟨hlevel, hbelow⟩ := List.forall_mem_cons.mp hbelow
          rw [tokensOf, List.cons_append, List.cons_append, List.cons_append, List.append_assoc,
            List.append_assoc, assemble_cons hopen, assemble_cons rfl, assemble_cons rfl,
            hvalue (.inl rfl) (.object [] (some key) :: stack) hlevel]
          refine (Assembles.fields hrest hbelow houter _ [] (some key) list).trans ?_
          rw [Outline.ofJson_object]
          rfl

/-- A document is seen in its text, if it is not nested too deep. -/
theorem Writable.outline_pretty {json : Json} (h : Writable json) {levels : Nat}
    (hlevels : json.depth ≤ levels) : outline levels json.pretty = (.ofJson json, true) := by
  have hassemble := h.assembles levels (.inl rfl) [] ((Nat.zero_add json.depth).symm ▸ hlevels) []
  rw [outline_of_cut h.cut_pretty, ← List.append_nil (tokensOf json), hassemble]
  rfl

end Json

end Skein
