import Skein.Proofs.Expr.Lexing
import Skein.Proofs.Expr.Tree
import Skein.Proofs.Number.Digits

set_option autoImplicit false

/-!
# Expr: writing tokens down

How the tokens of an expression can be written as source text: each of them by one of its
spellings, with white space between neighbours.  The spellings are stated without the scanner.
What the scanner makes of them is stated second: a written list of tokens is cut into lexemes,
token by token, wherever the white space stands.
-/

namespace Skein

/-! ## Spellings -/

/-- White space, or nothing. -/
def IsGap (cs : List Char) : Prop := ∀ c ∈ cs, Lexeme.isSpace c = true

theorem isGap_nil : IsGap [] := by simp [IsGap]

/-- A source that is at its end or goes on with white space. -/
def StartsWithGap (cs : List Char) : Prop := ∀ c ∈ cs.head?, Lexeme.isSpace c = true

/-- A name: one part, or several with dots between them. -/
inductive IsName : List Char → Prop where
  | part {c : Char} {rest : List Char} (hstart : Lexeme.isWordStart c = true)
      (hrest : ∀ d ∈ rest, Lexeme.isWordChar d = true) : IsName (c :: rest)
  | dotted {c : Char} {rest later : List Char} (hstart : Lexeme.isWordStart c = true)
      (hrest : ∀ d ∈ rest, Lexeme.isWordChar d = true) (hlater : IsName later) :
      IsName (c :: (rest ++ '.' :: later))

/-- A text and the characters that can stand for it between quotes.  A backslash before a
character that is not escaped stands for itself; a line end cannot follow it. -/
inductive Quotes : List Char → List Char → Prop where
  | nil : Quotes [] []
  | plain {c : Char} {s body : List Char} (hquote : c ≠ '"') (hescape : c ≠ '\\')
      (h : Quotes s body) : Quotes (c :: s) (c :: body)
  | lineEnd {s body : List Char} (h : Quotes s body) : Quotes ('\n' :: s) ('\\' :: 'n' :: body)
  | tab {s body : List Char} (h : Quotes s body) : Quotes ('\t' :: s) ('\\' :: 't' :: body)
  | backslash {s body : List Char} (h : Quotes s body) :
      Quotes ('\\' :: s) ('\\' :: '\\' :: body)
  | quote {s body : List Char} (h : Quotes s body) : Quotes ('"' :: s) ('\\' :: '"' :: body)
  | lone {c : Char} {s body : List Char} (hc : c ∉ ['n', 't', '\\', '"', '\n'])
      (h : Quotes s body) : Quotes ('\\' :: c :: s) ('\\' :: c :: body)

/-- The word that can be written for an operator in place of its sign. -/
def Operator.word? : Operator → Option String
  | and => some "and"
  | or => some "or"
  | not => some "not"
  | modulo => some "mod"
  | contains => some "has"
  | notContains => some "hasnt"
  | _ => none

/-- The texts a token can be written as.  Numbers with a point and lists that are not empty
have none here. -/
inductive Token.Spells : Token → List Char → Prop where
  | bool (b : Bool) : Spells (.bool b) (toString b).toList
  | int {n : Int64} (hn : 0 ≤ n.toInt) : Spells (.int n) (Nat.toDigits 10 n.toInt.toNat)
  | str {s : String} {body : List Char} (h : Quotes s.toList body) :
      Spells (.str s) ('"' :: (body ++ ['"']))
  | emptyList {gap : List Char} (hgap : IsGap gap) :
      Spells (.list .empty) ('(' :: (gap ++ [')']))
  | path {p : String} {gap : List Char} (hgap : IsGap gap) (hp : IsName p.toList) :
      Spells (.path p) ('-' :: '>' :: (gap ++ p.toList))
  | sign (op : Operator) (fixity : Fixity) : Spells (.operator op fixity) op.symbol.toList
  | word {op : Operator} {w : String} (hw : op.word? = some w) (fixity : Fixity) :
      Spells (.operator op fixity) w.toList
  | punct (p : Punct) : Spells (.punct p) p.text.toList
  | function {f : FunctionRef} (hf : IsName f.name.toList) : Spells (.function f) f.name.toList
  | ident {name : String} (hname : IsName name.toList) : Spells (.ident name) name.toList

/-- A source text that consists of the tokens in a row, with white space between
neighbours. -/
inductive Writes : List Token → List Char → Prop where
  | nil {gap : List Char} (hgap : IsGap gap) : Writes [] gap
  | cons {token : Token} {tokens : List Token} {gap text rest : List Char} (hgap : IsGap gap)
      (htext : token.Spells text) (hbreak : StartsWithGap rest) (hrest : Writes tokens rest) :
      Writes (token :: tokens) (gap ++ (text ++ rest))

/-! ## Every list of spelled tokens can be written -/

theorem exists_quotes (s : List Char) : ∃ body, Quotes s body := by
  induction s with
  | nil => exact ⟨[], .nil⟩
  | cons c s ih =>
      obtain ⟨body, hbody⟩ := ih
      by_cases hquote : c = '"'
      · subst hquote
        exact ⟨_, .quote hbody⟩
      · by_cases hescape : c = '\\'
        · subst hescape
          exact ⟨_, .backslash hbody⟩
        · exact ⟨_, .plain hquote hescape hbody⟩

/-- One more token in front of a text that starts with white space. -/
theorem Writes.spaced {c : Char} (hc : Lexeme.isSpace c = true) {token : Token}
    {tokens : List Token} {text rest : List Char} (htext : token.Spells text)
    (h : StartsWithGap rest ∧ Writes tokens rest) :
    StartsWithGap (c :: (text ++ rest)) ∧ Writes (token :: tokens) (c :: (text ++ rest)) := by
  have hgap : IsGap [c] := by simpa [IsGap] using hc
  exact ⟨by simpa [StartsWithGap] using hc, .cons hgap htext h.1 h.2⟩

theorem Writes.end : StartsWithGap [] ∧ Writes [] [] :=
  ⟨by simp [StartsWithGap], .nil isGap_nil⟩

theorem exists_writes {tokens : List Token} (h : ∀ token ∈ tokens, ∃ text, token.Spells text) :
    ∃ cs, StartsWithGap cs ∧ Writes tokens cs := by
  induction tokens with
  | nil => exact ⟨[], Writes.end⟩
  | cons token tokens ih =>
      obtain ⟨text, htext⟩ := h token List.mem_cons_self
      obtain ⟨rest, hrest⟩ := ih fun other hother => h other (List.mem_cons_of_mem _ hother)
      exact ⟨_, Writes.spaced (c := ' ') rfl htext hrest⟩

/-! ## The lexeme at the start of a spelling -/

namespace Lexeme

theorem isBlank_of_isSpace {c : Char} (h : isSpace c = true) : Text.isBlank c = true := by
  simp only [isSpace, Bool.or_eq_true, decide_eq_true_eq] at h
  rcases h with ((rfl | rfl) | rfl) | rfl <;> decide

/-- Between a gap and the end of a source, or the next gap, the given characters are read as
one lexeme. -/
def Stands (lexeme : Lexeme) (text : List Char) : Prop :=
  ∃ c cs, text = c :: cs ∧ ∀ rest, StartsWithGap rest →
    ∃ taken, first c (cs ++ rest) = .ok (lexeme, taken, rest)

theorem scanWord_of_startsWithGap {rest : List Char} (h : StartsWithGap rest) :
    scanWord rest = ([], rest) := by
  cases rest with
  | nil => rfl
  | cons c rest =>
      have hblank := isBlank_of_isSpace (h c rfl)
      have hdot : c ≠ '.' := by
        rintro rfl
        exact absurd hblank (by decide)
      cases rest with
      | nil => simp [scanWord, isWordChar_of_isBlank hblank]
      | cons d rest => simp [scanWord, isWordChar_of_isBlank hblank, hdot]

/-- The characters of a part of a name are taken over, whatever follows them. -/
theorem scanWord_part {part : List Char} (h : ∀ d ∈ part, isWordChar d = true)
    (rest : List Char) :
    scanWord (part ++ rest) = (part ++ (scanWord rest).1, (scanWord rest).2) := by
  induction part with
  | nil => rfl
  | cons d part ih =>
      have hd := h d List.mem_cons_self
      have htail := ih fun e he => h e (List.mem_cons_of_mem _ he)
      cases hpart : part ++ rest with
      | nil =>
          obtain ⟨rfl, rfl⟩ := List.append_eq_nil_iff.mp hpart
          simp [scanWord, hd]
      | cons e later =>
          rw [hpart] at htail
          rw [List.cons_append, hpart, scanWord, if_pos (by rw [hd]; rfl), htail]
          rfl

theorem isWordChar_of_isWordStart {c : Char} (h : isWordStart c = true) : isWordChar c = true := by
  simp only [isWordStart, isWordChar, Char.isAlphanum, Bool.or_eq_true] at h ⊢
  exact h.imp_left .inl

/-- A name starts as one, and what follows its first character is taken over up to the gap
behind it. -/
theorem scanWord_name {name : List Char} (hname : IsName name) :
    ∃ c cs, name = c :: cs ∧ isWordStart c = true ∧
      ∀ rest, StartsWithGap rest → scanWord (cs ++ rest) = (cs, rest) := by
  induction hname with
  | @part c part hstart hpart =>
      refine ⟨c, part, rfl, hstart, ?_⟩
      intro rest hrest
      rw [scanWord_part hpart, scanWord_of_startsWithGap hrest, List.append_nil]
  | @dotted c part later hstart hpart hlater ih =>
      obtain ⟨d, ds, rfl, hd, hscan⟩ := ih
      refine ⟨c, part ++ '.' :: d :: ds, rfl, hstart, ?_⟩
      intro rest hrest
      have hlater : scanWord (d :: (ds ++ rest)) = (d :: ds, rest) := by
        have hword : ∀ e ∈ [d], isWordChar e = true := by simp [isWordChar_of_isWordStart hd]
        rw [← List.singleton_append, scanWord_part hword, hscan rest hrest]
        rfl
      have hdot : scanWord ('.' :: d :: (ds ++ rest)) = ('.' :: d :: ds, rest) := by
        rw [scanWord, if_pos (by rw [hd]; rfl), hlater]
      rw [List.append_assoc, List.cons_append, List.cons_append, scanWord_part hpart, hdot]

theorem ne_quote_of_isWordStart {c : Char} (h : isWordStart c = true) : c ≠ '"' := by
  rintro rfl
  exact absurd h (by decide)

theorem isDigit_of_isWordStart {c : Char} (h : isWordStart c = true) : c.isDigit = false := by
  simp only [isWordStart, isAlpha_eq, Bool.or_eq_true, Bool.and_eq_true, decide_eq_true_eq] at h
  simp only [Char.isDigit, Bool.and_eq_false_iff, decide_eq_false_iff_not]
  rcases h with h | rfl
  · simp only [ge_iff_le, UInt32.le_iff_toNat_le, Char.reduceVal, UInt32.reduceToNat,
      Char.toNat_val] at h ⊢
    omega
  · decide

theorem stands_word {name : List Char} (h : IsName name) : Stands (.word name) name := by
  obtain ⟨c, cs, rfl, hstart, hscan⟩ := scanWord_name h
  refine ⟨c, cs, rfl, ?_⟩
  intro rest hrest
  refine ⟨c :: cs, ?_⟩
  rw [first, if_neg (ne_quote_of_isWordStart hstart), isDigit_of_isWordStart hstart, hstart,
    hscan rest hrest]
  rfl

/-- Digits are taken over up to the gap behind them. -/
theorem stands_int {digits : List Char} (hne : digits ≠ [])
    (hdigits : ∀ c ∈ digits, c.isDigit = true) : Stands (.int digits) digits := by
  obtain ⟨c, cs, rfl⟩ := List.exists_cons_of_ne_nil hne
  have hc : c.isDigit = true := hdigits c List.mem_cons_self
  have hquote : c ≠ '"' := by
    rintro rfl
    exact absurd hc (by decide)
  refine ⟨c, cs, rfl, ?_⟩
  intro rest hrest
  refine ⟨c :: cs, ?_⟩
  have htake : rest.takeWhile Char.isDigit = [] := by
    cases rest with
    | nil => rfl
    | cons b rest =>
        rw [List.takeWhile_cons, isDigit_of_isBlank (isBlank_of_isSpace (hrest b rfl))]
        rfl
  have hdrop : rest.dropWhile Char.isDigit = rest := by
    have hsplit := List.takeWhile_append_dropWhile (p := Char.isDigit) (l := rest)
    rwa [htake] at hsplit
  have hpoint : ∀ later, rest ≠ '.' :: later := by
    rintro later rfl
    exact absurd (hrest '.' rfl) (by decide)
  rw [first, if_neg hquote, if_pos hc, scanNumber, ← List.cons_append,
    List.takeWhile_append_of_pos hdigits, List.dropWhile_append_of_pos hdigits, htake, hdrop,
    List.append_nil]
  dsimp only
  split
  · next later => exact absurd rfl (hpoint later)
  · rfl

/-- The characters between quotes are taken over up to the closing quote. -/
theorem scanText_quotes {s body : List Char} (h : Quotes s body) (found rest : List Char) :
    scanText found (body ++ '"' :: rest) = (found.reverse ++ body, some rest) := by
  induction h generalizing found with
  | nil => simp [scanText]
  | plain hquote hescape _ ih => rw [List.cons_append, scanText_cons hquote hescape, ih]; simp
  | lineEnd _ ih | tab _ ih | backslash _ ih | quote _ ih =>
      rw [List.cons_append, List.cons_append, scanText, if_neg (by decide), ih]
      simp
  | lone hc _ ih =>
      rw [List.cons_append, List.cons_append, scanText, if_neg (by rintro rfl; simp at hc), ih]
      simp

/-- What stands between quotes is read as the text it was written for. -/
theorem unescape_quotes {s body : List Char} (h : Quotes s body) : unescape body = s := by
  induction h with
  | nil => rfl
  | plain _ hescape _ ih =>
      rw [unescape, ih]
      all_goals
        intros
        exact hescape ‹_›
  | lineEnd _ ih | tab _ ih | backslash _ ih | quote _ ih => rw [unescape, ih]
  | lone hc _ ih =>
      rw [unescape, ih]
      all_goals
        rintro rfl
        simp at hc

theorem stands_str {s body : List Char} (h : Quotes s body) :
    Stands (.str body) ('"' :: (body ++ ['"'])) := by
  refine ⟨'"', body ++ ['"'], rfl, ?_⟩
  intro rest _
  refine ⟨'"' :: body ++ ['"'], ?_⟩
  rw [first, if_pos rfl, List.append_assoc, List.singleton_append, scanText_quotes h]
  rfl

/-- A character that starts a sign. -/
def isSignStart (c : Char) : Bool := c != '"' && !c.isDigit && !isWordStart c

theorem first_of_isSignStart {c : Char} (h : isSignStart c = true) (rest : List Char) :
    first c rest =
      match rest.head?.bind (ofTwo? c) with
      | some lexeme => .ok (lexeme, c :: rest.take 1, rest.drop 1)
      | none =>
        match ofOne? c with
        | some lexeme => .ok (lexeme, [c], rest)
        | none => .error [c] := by
  simp only [isSignStart, Bool.and_eq_true, bne_iff_ne, Bool.not_eq_true'] at h
  rw [first, if_neg h.1.1, h.1.2, h.2]
  rfl

/-- A sign of two characters is read as one, whatever follows it. -/
theorem first_two {c d : Char} {lexeme : Lexeme} (hc : isSignStart c = true)
    (h : ofTwo? c d = some lexeme) (rest : List Char) :
    first c (d :: rest) = .ok (lexeme, [c, d], rest) := by
  rw [first_of_isSignStart hc, List.head?_cons, Option.bind_some, h]
  rfl

theorem stands_two {c d : Char} {lexeme : Lexeme} (hc : isSignStart c = true)
    (h : ofTwo? c d = some lexeme) : Stands lexeme [c, d] :=
  ⟨c, [d], rfl, fun rest _ => ⟨[c, d], first_two hc h rest⟩⟩

/-- A sign of one character is read as one where no second one follows it. -/
theorem stands_one {c : Char} {lexeme : Lexeme} (hc : isSignStart c = true)
    (h : ofOne? c = some lexeme) : Stands lexeme [c] := by
  refine ⟨c, [], rfl, ?_⟩
  intro rest hrest
  have htwo : rest.head?.bind (ofTwo? c) = none := by
    cases rest with
    | nil => rfl
    | cons d rest => exact ofTwo?_of_isBlank c (isBlank_of_isSpace (hrest d rfl))
  refine ⟨[c], ?_⟩
  rw [List.nil_append, first_of_isSignStart hc, htwo, h]

end Lexeme

/-- The lexeme of an operator that is written as its sign. -/
def Operator.lexeme : Operator → Lexeme
  | subtract | negate => .minus
  | not => .bang
  | increment => .step .increment
  | decrement => .step .decrement
  | op => .sign op

theorem Operator.stands_lexeme (op : Operator) : op.lexeme.Stands op.symbol.toList := by
  cases op with
  | addAssign | subAssign | increment | decrement | equal | notEqual | lessEq | greaterEq | and
  | or | notContains | shiftLeft | shiftRight => exact Lexeme.stands_two (by decide) (by decide)
  | _ => exact Lexeme.stands_one (by decide) (by decide)

/-- The lexeme of a punctuation mark. -/
def Punct.lexeme : Punct → Lexeme
  | opening => .openParen
  | closing => .closeParen
  | comma => .comma

theorem Punct.stands_lexeme (p : Punct) : p.lexeme.Stands p.text.toList := by
  cases p <;> exact Lexeme.stands_one (by decide) (by decide)

/-! ## Cutting a written list of tokens -/

/-- The lexemes that a spelling of a token consists of. -/
inductive Token.Cut : Token → List Lexeme → Prop where
  | bool (b : Bool) : Cut (.bool b) [.word (toString b).toList]
  | int {n : Int64} {digits : List Char} (h : Number.readInt64? digits = some n) :
      Cut (.int n) [.int digits]
  | str {s : String} {body : List Char} (h : unescape body = s.toList) : Cut (.str s) [.str body]
  | emptyList : Cut (.list .empty) [.openParen, .closeParen]
  | path (p : String) : Cut (.path p) [.arrow, .word p.toList]
  | sign (op : Operator) (fixity : Fixity) : Cut (.operator op fixity) [op.lexeme]
  | word {op : Operator} {w : String} (hw : op.word? = some w) (fixity : Fixity) :
      Cut (.operator op fixity) [.word w.toList]
  | punct (p : Punct) : Cut (.punct p) [p.lexeme]
  | function (f : FunctionRef) : Cut (.function f) [.word f.name.toList]
  | ident (name : String) : Cut (.ident name) [.word name.toList]

/-- The lexemes of tokens in a row. -/
inductive Cuts : List Token → List Lexeme → Prop where
  | nil : Cuts [] []
  | cons {token : Token} {tokens : List Token} {lexemes later : List Lexeme}
      (hcut : token.Cut lexemes) (hlater : Cuts tokens later) :
      Cuts (token :: tokens) (lexemes ++ later)

namespace Lexes

theorem gap_cons {gap rest taken after : List Char} {c : Char} {lexeme : Lexeme}
    {later : List Lexeme} (hgap : IsGap gap)
    (hfirst : Lexeme.first c rest = .ok (lexeme, taken, after)) (hlater : Lexes after later) :
    Lexes (gap ++ c :: rest) (lexeme :: later) := by
  have hc : Lexeme.isSpace c = false := by
    rw [← Bool.not_eq_true]
    intro hspace
    rw [Lexeme.first_of_isBlank (Lexeme.isBlank_of_isSpace hspace)] at hfirst
    cases hfirst
  refine .more ?_ hfirst hlater
  rw [List.dropWhile_append_of_pos hgap, List.dropWhile_cons, hc]
  rfl

theorem stands {gap text rest : List Char} {lexeme : Lexeme} {later : List Lexeme}
    (hgap : IsGap gap) (htext : lexeme.Stands text) (hbreak : StartsWithGap rest)
    (hrest : Lexes rest later) : Lexes (gap ++ (text ++ rest)) (lexeme :: later) := by
  obtain ⟨c, cs, rfl, hfirst⟩ := htext
  obtain ⟨taken, htaken⟩ := hfirst rest hbreak
  exact gap_cons hgap htaken hrest

end Lexes

theorem Operator.isName_word {op : Operator} {w : String} (hw : op.word? = some w) :
    IsName w.toList := by
  cases op <;> cases hw <;> exact .part (by decide) (List.all_eq_true.mp rfl)

/-- A spelling between gaps is cut into the lexemes of its token. -/
theorem Token.Spells.exists_cut {token : Token} {text : List Char} (h : token.Spells text) :
    ∃ lexemes, token.Cut lexemes ∧ ∀ {gap rest : List Char} {later : List Lexeme}, IsGap gap →
      StartsWithGap rest → Lexes rest later →
        Lexes (gap ++ (text ++ rest)) (lexemes ++ later) := by
  cases h with
  | bool b =>
      have hname : IsName (toString b).toList := by
        cases b <;> exact .part (by decide) (List.all_eq_true.mp rfl)
      exact ⟨_, .bool b, fun hgap => Lexes.stands hgap (Lexeme.stands_word hname)⟩
  | int hn =>
      exact ⟨_, .int (Number.readInt64?_toDigits hn), fun hgap => Lexes.stands hgap
        (Lexeme.stands_int Nat.toDigits_ne_nil fun _ => Number.isDigit_of_mem_toDigits)⟩
  | str hbody =>
      exact ⟨_, .str (Lexeme.unescape_quotes hbody),
        fun hgap => Lexes.stands hgap (Lexeme.stands_str hbody)⟩
  | @emptyList inner hinner =>
      refine ⟨_, .emptyList, ?_⟩
      intro gap rest later hgap hbreak hrest
      have hclose := Lexes.stands hinner (Punct.stands_lexeme .closing) hbreak hrest
      have hopen : Lexeme.first '(' (inner ++ (')' :: rest)) =
          .ok (.openParen, ['('], inner ++ (')' :: rest)) := by
        have htwo : (inner ++ (')' :: rest)).head?.bind (Lexeme.ofTwo? '(') = none := by
          cases (inner ++ (')' :: rest)).head? <;> rfl
        rw [Lexeme.first_of_isSignStart (by decide), htwo]
        rfl
      rw [List.cons_append, List.append_assoc]
      exact Lexes.gap_cons hgap hopen hclose
  | @path p inner hinner hp =>
      refine ⟨_, .path p, ?_⟩
      intro gap rest later hgap hbreak hrest
      have hname := Lexes.stands hinner (Lexeme.stands_word hp) hbreak hrest
      rw [List.cons_append, List.cons_append, List.append_assoc]
      exact Lexes.gap_cons hgap (Lexeme.first_two (by decide) (by decide) _) hname
  | sign op fixity =>
      exact ⟨_, .sign op fixity, fun hgap => Lexes.stands hgap op.stands_lexeme⟩
  | word hw fixity =>
      exact ⟨_, .word hw fixity,
        fun hgap => Lexes.stands hgap (Lexeme.stands_word (Operator.isName_word hw))⟩
  | punct p => exact ⟨_, .punct p, fun hgap => Lexes.stands hgap p.stands_lexeme⟩
  | function hf => exact ⟨_, .function _, fun hgap => Lexes.stands hgap (Lexeme.stands_word hf)⟩
  | ident hname =>
      exact ⟨_, .ident _, fun hgap => Lexes.stands hgap (Lexeme.stands_word hname)⟩

/-- A written list of tokens is cut token by token. -/
theorem Writes.exists_cuts {tokens : List Token} {cs : List Char} (h : Writes tokens cs) :
    ∃ lexemes, Cuts tokens lexemes ∧ Lexes cs lexemes := by
  induction h with
  | @nil gap hgap =>
      refine ⟨[], .nil, .done ?_⟩
      rw [← List.append_nil gap, List.dropWhile_append_of_pos hgap]
      rfl
  | cons hgap htext hbreak _ ih =>
      obtain ⟨later, hcuts, hlexes⟩ := ih
      obtain ⟨lexemes, hcut, hstands⟩ := htext.exists_cut
      exact ⟨_, .cons hcut hcuts, hstands hgap hbreak hlexes⟩

end Skein
