import Skein.Expr.Evaluate
import Skein.Proofs.Expr.Spelling

set_option autoImplicit false

/-!
# Expr: texts as literals

Every text can be written between quotes, with a backslash in front of each quote and each
backslash.  Line ends and tabs stand as they are or as two letters, each as one likes.  Where the
literal ends is found by one scan and what it stands for by another; the two pair up the
backslashes in the same way, so the literal is one token, and its value is the text.
-/

namespace Skein

/-- A character as it is written between quotes; `short` says that a line end or a tab is written
as a backslash and a letter. -/
def spelling (short : Bool) (c : Char) : List Char :=
  if c = '\\' then ['\\', '\\']
  else if c = '"' then ['\\', '"']
  else if short && c = '\n' then ['\\', 'n']
  else if short && c = '\t' then ['\\', 't']
  else [c]

/-- The characters of a text as they are written between quotes; `short` says for each place
whether a line end or a tab there is written as a backslash and a letter. -/
def spelled (short : Nat → Bool) (cs : List Char) : List Char :=
  (cs.mapIdx fun place c => spelling (short place) c).flatten

/-- The literal of a text. -/
def literal (short : Nat → Bool) (s : String) : String :=
  String.ofList ('"' :: (spelled short s.toList ++ ['"']))

theorem spelled_cons (short : Nat → Bool) (c : Char) (cs : List Char) :
    spelled short (c :: cs) =
      spelling (short 0) c ++ spelled (fun place => short (place + 1)) cs := by
  rw [spelled, List.mapIdx_cons, List.flatten_cons]
  rfl

/-- One more character in front of what stands between quotes. -/
theorem Quotes.spelling_append {s body : List Char} (h : Quotes s body) (short : Bool) (c : Char) :
    Quotes (c :: s) (spelling short c ++ body) := by
  unfold spelling
  split
  · next hc =>
    subst hc
    exact .backslash h
  · next hescape =>
    split
    · next hc =>
      subst hc
      exact .quote h
    · next hquote =>
      split
      · next hc =>
        obtain ⟨-, hc⟩ := Bool.and_eq_true_iff.mp hc
        obtain rfl := of_decide_eq_true hc
        exact .lineEnd h
      · split
        · next hc =>
          obtain ⟨-, hc⟩ := Bool.and_eq_true_iff.mp hc
          obtain rfl := of_decide_eq_true hc
          exact .tab h
        · exact .plain hquote hescape h

theorem quotes_spelled (short : Nat → Bool) (cs : List Char) : Quotes cs (spelled short cs) := by
  induction cs generalizing short with
  | nil => exact .nil
  | cons c cs ih =>
      rw [spelled_cons]
      exact (ih _).spelling_append (short 0) c

/-! ## Reading a literal -/

/-- Between its quotes, the text is one lexeme, and nothing is left behind it. -/
theorem Quotes.lex_eq {s body : List Char} (h : Quotes s body) :
    lex ('"' :: (body ++ ['"'])) = .ok [{ lexeme := .str body, offset := 0 }] := by
  have hfirst : Lexeme.first '"' (body ++ ['"']) =
      .ok (.str body, '"' :: body ++ ['"'], []) := by
    rw [Lexeme.first, if_pos rfl, Lexeme.scanText_quotes h]
    rfl
  have hspace : ('"' :: (body ++ ['"'])).dropWhile Lexeme.isSpace = '"' :: (body ++ ['"']) := rfl
  rw [lex, lexFrom, hspace]
  dsimp only
  rw [hfirst]
  rfl

theorem Quotes.tokenize_eq {s body : List Char} (h : Quotes s body) (symbols : Symbols) :
    tokenize symbols (String.ofList ('"' :: (body ++ ['"']))) = .ok [.str (String.ofList s)] := by
  unfold tokenize
  dsimp only
  rw [String.toList_ofList, h.lex_eq]
  show Except.ok [Token.str (String.ofList (unescape body))] = _
  rw [Lexeme.unescape_quotes h]

/-- A token that is a text has that text as its value. -/
theorem Expression.value_str {σ ε : Type} (h : Host σ ε) (source s : String) (state : σ) :
    Expression.value { source := source, tokens := [.str s], order := [0] } h state =
      .ok (some (.string s)) state := rfl

/-- Every text can be written as a literal, whichever of its line ends and tabs stand as they are:
the literal is one token and stands for the text, whatever names are known, and so is its value
with every host. -/
theorem tokenize_literal (symbols : Symbols) (short : Nat → Bool) (s : String) :
    tokenize symbols (literal short s) = .ok [.str s] ∧
      ∃ e, Expression.parse symbols (literal short s) = .ok e ∧
        ∀ {σ ε : Type} (h : Host σ ε) (state : σ),
          e.value h state = .ok (some (.string s)) state := by
  have htokens : tokenize symbols (literal short s) = .ok [.str s] := by
    have hread := (quotes_spelled short s.toList).tokenize_eq symbols
    rwa [String.ofList_toList] at hread
  refine ⟨htokens, { source := Text.trim (literal short s), tokens := [.str s], order := [0] }, ?_,
    fun h state => Expression.value_str h _ s state⟩
  rw [Expression.parse, htokens]
  rfl

example : (tokenize Symbols.none "\"a\\\"\n\\n\\\\\"").toOption =
    some [.str "a\"\n\n\\"] := by decide +kernel

end Skein
