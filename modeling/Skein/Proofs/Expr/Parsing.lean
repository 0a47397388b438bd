import Skein.Proofs.Expr.Grouping
import Skein.Proofs.Expr.Lexing

set_option autoImplicit false

/-!
# Expr: what reading an expression comes to

Parentheses and commas are looked at twice.  The arguments of calls are counted along groups, one
for each parenthesis that is open, and the evaluation order is found along a stack of held tokens.
The count asks for more: a comma has to stand in the parentheses of a call, and not only in some.
So tokens whose arguments were counted always have an order, and a source that is refused is
refused by its tokens, or for having none.

An expression keeps its source without the white space around it.  A lexeme neither starts with
white space nor reaches into what is behind the source, so what falls away are characters that
stand between lexemes, and the source that is kept reads as before.
-/

namespace Skein

/-! ## Balance -/

/-- No token comes where it needs an open parenthesis and there is none, and at the end none is
open. -/
def Balanced (depth : Nat) (tokens : List Token) : Prop :=
  (∀ place, ¬Offends depth tokens place) ∧ unclosed depth tokens = 0

theorem balanced_nil : Balanced 0 [] := ⟨not_offends_nil, rfl⟩

theorem balanced_cons {depth : Nat} {token : Token} {rest : List Token} :
    Balanced depth (token :: rest) ↔
      ¬(token.needsOpen = true ∧ depth = 0) ∧ Balanced (token.nest depth) rest := by
  constructor
  · rintro ⟨hoffends, hclosed⟩
    refine ⟨fun hfirst => hoffends 0 (offends_zero.mpr hfirst), fun place hplace => ?_, hclosed⟩
    exact hoffends (place + 1) (offends_succ.mpr hplace)
  · rintro ⟨hfirst, hoffends, hclosed⟩
    exact ⟨not_offends_cons hfirst hoffends, hclosed⟩

/-- Balanced tokens have an evaluation order. -/
theorem Balanced.exists_order {tokens : List Token} (h : Balanced 0 tokens) :
    ∃ order, postorder tokens = .ok order := by
  cases hrun : postorder tokens with
  | ok order => exact ⟨order, rfl⟩
  | error fault =>
      rcases blame_of_orderFrom hrun with ⟨place, hfirst, _⟩ | ⟨_, hopen, _⟩
      · exact absurd hfirst.1 (h.1 place)
      · exact absurd h.2 hopen

/-! ## Counted arguments -/

theorem length_markContent (groups : List Group) :
    (markContent groups).length = groups.length := by
  cases groups with
  | nil => rfl
  | cons g outer => rfl

/-- Tokens whose arguments can be counted are balanced: there is a group for each parenthesis that
is open. -/
theorem balanced_of_countArguments {previous : Option Token} {place : Nat} {groups : List Group}
    {tokens : List Token} {counts : List (Nat × Nat)}
    (h : countArguments previous place groups tokens = .ok counts) :
    Balanced groups.length tokens := by
  fun_induction countArguments previous place groups tokens generalizing counts with
  | case1 previous place groups hempty =>
      rw [List.isEmpty_iff.mp hempty]
      exact balanced_nil
  | case2 => cases h
  | case3 previous place rest f n c outer ih =>
      exact balanced_cons.mpr ⟨fun hnone => Nat.succ_ne_zero _ hnone.2, ih h⟩
  | case4 => cases h
  | case5 => cases h
  | case6 previous place rest g outer ih =>
      obtain ⟨later, hlater, _⟩ := Outcome.of_bind_eq_ok h
      exact balanced_cons.mpr ⟨fun hnone => Nat.succ_ne_zero _ hnone.2, ih hlater⟩
  | case7 previous place groups rest function =>
      rename_i ih
      have hrest := ih h
      rw [List.length_cons, length_markContent] at hrest
      exact balanced_cons.mpr ⟨fun hneeds => Bool.false_ne_true hneeds.1, hrest⟩
  | case8 previous place groups token rest hcomma hclosing hopening ih =>
      have hrest := ih h
      rw [length_markContent] at hrest
      -- Any other token leaves the parentheses as they are.
      have hplain : token.needsOpen = false ∧ token.nest groups.length = groups.length := by
        cases token with
        | punct p =>
            cases p with
            | opening => exact absurd rfl hopening
            | closing => exact absurd rfl hclosing
            | comma => exact absurd rfl hcomma
        | _ => exact ⟨rfl, rfl⟩
      refine balanced_cons.mpr ⟨fun hneeds => ?_, hplain.2.symm ▸ hrest⟩
      rw [hplain.1] at hneeds
      exact Bool.false_ne_true hneeds.1

/-- The number of arguments of a call does not matter for its parentheses. -/
theorem balanced_mapIdx {f : Nat → Token → Token}
    (hf : ∀ place token, f place token = token ∨ ∃ arity, f place token = token.withArity arity)
    {depth : Nat} {tokens : List Token} (h : Balanced depth tokens) :
    Balanced depth (tokens.mapIdx f) := by
  induction tokens generalizing depth f with
  | nil => exact h
  | cons token rest ih =>
      obtain ⟨hfirst, hrest⟩ := balanced_cons.mp h
      have hsame : (f 0 token).needsOpen = token.needsOpen ∧
          (f 0 token).nest depth = token.nest depth := by
        rcases hf 0 token with heq | ⟨arity, heq⟩
        · rw [heq]
          exact ⟨rfl, rfl⟩
        · rw [heq]
          cases token with
          | function g => exact ⟨rfl, rfl⟩
          | _ => exact ⟨rfl, rfl⟩
      rw [List.mapIdx_cons, balanced_cons, hsame.1, hsame.2]
      exact ⟨hfirst, ih (fun place other => hf (place + 1) other) hrest⟩

theorem Balanced.setArities {depth : Nat} {tokens : List Token} (h : Balanced depth tokens)
    (counts : List (Nat × Nat)) : Balanced depth (setArities counts tokens) := by
  refine balanced_mapIdx (fun place token => ?_) h
  split
  · next count _ => exact .inr ⟨count.2, rfl⟩
  · exact .inl rfl

/-- The tokens of a source are balanced. -/
theorem balanced_of_tokenize {symbols : Symbols} {source : String} {tokens : List Token}
    (h : tokenize symbols source = .ok tokens) : Balanced 0 tokens := by
  obtain ⟨pieces, _, h⟩ := Outcome.of_bind_eq_ok h
  obtain ⟨plain, _, h⟩ := Outcome.of_bind_eq_ok h
  obtain ⟨counts, hcounts, h⟩ := Outcome.of_bind_eq_ok h
  cases h
  exact (balanced_of_countArguments hcounts).setArities counts

namespace Expression

theorem parse_of_error {symbols : Symbols} {source : String} {fault : ExprFault}
    (h : tokenize symbols source = .error fault) : parse symbols source = .error fault := by
  unfold parse
  rw [h]
  rfl

theorem parse_of_nil {symbols : Symbols} {source : String}
    (h : tokenize symbols source = .ok []) : parse symbols source = .error .empty := by
  unfold parse
  rw [h]
  rfl

theorem parse_of_order {symbols : Symbols} {source : String} {tokens : List Token}
    {order : List Nat} (htokens : tokenize symbols source = .ok tokens) (hsome : tokens ≠ [])
    (horder : postorder tokens = .ok order) :
    parse symbols source = .ok ⟨Text.trim source, tokens, order⟩ := by
  have hempty : tokens.isEmpty = false := by simpa using hsome
  unfold parse
  rw [htokens]
  show (if tokens.isEmpty = true then _ else _) = _
  rw [hempty]
  show (postorder tokens >>= _) = _
  rw [horder]
  rfl

theorem source_of_parse {symbols : Symbols} {source : String} {e : Expression}
    (h : parse symbols source = .ok e) :
    e.source = Text.trim source ∧ tokenize symbols source = .ok e.tokens := by
  cases htokens : tokenize symbols source with
  | error fault =>
      rw [parse_of_error htokens] at h
      cases h
  | ok tokens =>
      cases tokens with
      | nil =>
          rw [parse_of_nil htokens] at h
          cases h
      | cons token rest =>
          obtain ⟨order, horder⟩ := (balanced_of_tokenize htokens).exists_order
          rw [parse_of_order htokens (List.cons_ne_nil _ _) horder] at h
          cases h
          exact ⟨rfl, rfl⟩

/-- Whatever the source and the names that are known: the tokens of the source have an evaluation
order, and so an expression is read from them unless there are none.  A source is refused exactly
for the fault of its tokens, or because it has none, and never for its parentheses and commas once
the tokens are there. -/
theorem parse_error_iff (symbols : Symbols) (source : String) :
    (∀ tokens, tokenize symbols source = .ok tokens →
      (∀ fault, postorder tokens ≠ .error fault) ∧
      ∃ order, postorder tokens = .ok order ∧
        (tokens ≠ [] → parse symbols source = .ok ⟨Text.trim source, tokens, order⟩)) ∧
    ∀ fault, parse symbols source = .error fault ↔
      tokenize symbols source = .error fault ∨
        tokenize symbols source = .ok [] ∧ fault = .empty := by
  have hordered (tokens : List Token) (htokens : tokenize symbols source = .ok tokens) :
      ∃ order, postorder tokens = .ok order := (balanced_of_tokenize htokens).exists_order
  refine ⟨fun tokens htokens => ?_, fun fault => ⟨fun hfails => ?_, ?_⟩⟩
  · obtain ⟨order, horder⟩ := hordered tokens htokens
    refine ⟨fun fault hfault => ?_, order, horder, fun hsome => parse_of_order htokens hsome horder⟩
    rw [horder] at hfault
    cases hfault
  · cases htokens : tokenize symbols source with
    | error other =>
        rw [parse_of_error htokens] at hfails
        exact .inl (congrArg Except.error (Except.error.inj hfails))
    | ok tokens =>
        cases tokens with
        | nil =>
            rw [parse_of_nil htokens] at hfails
            exact .inr ⟨rfl, (Except.error.inj hfails).symm⟩
        | cons token rest =>
            obtain ⟨order, horder⟩ := hordered _ htokens
            rw [parse_of_order htokens (List.cons_ne_nil _ _) horder] at hfails
            cases hfails
  · rintro (herror | ⟨hnone, rfl⟩)
    · exact parse_of_error herror
    · exact parse_of_nil hnone

/-- The arguments of a call can be told apart by a comma, and one of them may be an empty list.  In
parentheses that call nothing a comma is refused with the tokens, though they would have an
order. -/
theorem parse_error_iff_pair :
    (∃ tokens order, tokenize .none "MIN(a, ())" = .ok tokens ∧ tokens.length = 6 ∧
      postorder tokens = .ok order ∧
      parse .none "MIN(a, ())" = .ok ⟨Text.trim "MIN(a, ())", tokens, order⟩) ∧
    (∃ fault, tokenize .none "(a, b)" = .error fault ∧ parse .none "(a, b)" = .error fault) ∧
    ∃ order, postorder [.punct .opening, .ident "a", .punct .comma, .ident "b", .punct .closing] =
      .ok order := by
  have hread : ((tokenize .none "MIN(a, ())").toOption.map List.length) = some 6 := by
    decide +kernel
  have hrefused : (tokenize .none "(a, b)").toOption.isNone = true := by decide +kernel
  refine ⟨?_, ?_, [1, 3], rfl⟩
  · cases htokens : tokenize .none "MIN(a, ())" with
    | error fault =>
        rw [htokens] at hread
        cases hread
    | ok tokens =>
        rw [htokens] at hread
        have hlength : tokens.length = 6 := Option.some.inj hread
        obtain ⟨_, order, horder, hparse⟩ := (parse_error_iff _ _).1 tokens htokens
        refine ⟨tokens, order, rfl, hlength, horder, hparse ?_⟩
        rintro rfl
        cases hlength
  · cases htokens : tokenize .none "(a, b)" with
    | error fault => exact ⟨fault, rfl, ((parse_error_iff _ _).2 fault).mpr (.inl htokens)⟩
    | ok tokens =>
        rw [htokens] at hrefused
        cases hrefused

end Expression

/-! ## White space around a source -/

/-- What trimming takes from a source that has lexemes are spaces between lexemes. -/
theorem exists_spaces_of_lexes {source : String} {lexemes : List Lexeme}
    (h : Lexes source.toList lexemes) :
    ∃ front back, source.toList = front ++ (Text.trim source).toList ++ back ∧
      ∀ c ∈ front ++ back, Lexeme.isSpace c = true := by
  obtain ⟨front, back, hsource, hfront, hback⟩ := Text.exists_blanks source.toList
  rw [hsource] at h
  obtain ⟨hspaces, hrest⟩ := Lexes.of_blanks_append hfront h
  obtain ⟨hbehind, -⟩ := Lexes.of_append_blanks hback hrest
  refine ⟨front, back, ?_, fun c hc => ?_⟩
  · rw [Text.trim, String.toList_ofList, List.append_assoc]
    exact hsource
  · rcases List.mem_append.mp hc with hc | hc
    · exact hspaces c hc
    · exact hbehind c hc

namespace Expression

/-- An expression that was read keeps its source without the white space around it.  What falls
away stands between lexemes, and what is kept is read again, with the same names known, to the
same source, the same tokens and the same evaluation order. -/
theorem parse_stored {symbols : Symbols} {source : String} {e : Expression}
    (h : parse symbols source = .ok e) :
    e.source = Text.trim source ∧
      (∃ front back, source.toList = front ++ e.source.toList ++ back ∧
        ∀ c ∈ front ++ back, Lexeme.isSpace c = true) ∧
      parse symbols e.source = .ok e := by
  obtain ⟨hsource, htokens⟩ := source_of_parse h
  obtain ⟨pieces, hpieces, _⟩ := Outcome.of_bind_eq_ok htokens
  have hlexes := lexes_of_lexFrom (Nat.lt_succ_self _) hpieces
  refine ⟨hsource, ?_, parse_source h⟩
  rw [hsource]
  exact exists_spaces_of_lexes hlexes

/-- A text with spaces at its ends, between a tab and a line end. -/
theorem parse_stored_padded :
    ∃ e, parse .none "\t\" x \" + y \n" = .ok e ∧ e.source = "\" x \" + y" ∧
      e.tokens = [.str " x ", .operator .add .between, .ident "y"] ∧ e.order = [0, 2, 1] ∧
      parse .none e.source = .ok e := by
  have hread : (parse .none "\t\" x \" + y \n").toOption =
      some ⟨"\" x \" + y", [.str " x ", .operator .add .between, .ident "y"], [0, 2, 1]⟩ := by
    decide +kernel
  cases hparse : parse .none "\t\" x \" + y \n" with
  | error fault =>
      rw [hparse] at hread
      cases hread
  | ok e =>
      rw [hparse] at hread
      obtain ⟨_, _, hagain⟩ := parse_stored hparse
      obtain rfl := Option.some.inj hread
      exact ⟨_, rfl, rfl, rfl, rfl, hagain⟩

end Expression

end Skein
