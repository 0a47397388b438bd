import Skein.Proofs.Expr.EvaluationOrder
import Skein.Proofs.Expr.Tokenizing

set_option autoImplicit false

/-!
# Expr: what does not depend on the names that are known

Which names are known decides what a name becomes: a call of one kind or another, or, where
nothing is called, a call without arguments or a variable.  It does not decide whether a source
can be read, nor in which order it is evaluated.  Both depend on what the tokens are without
their names: where operands stand, and which parentheses belong to calls.

The words `temp` and `return` are the exception, so the tables compared here do not take them
for functions.
-/

namespace Skein

/-! ## Tokens without their names -/

namespace Token

/-- The token without its name.  A function that is not called is an operand like a variable. -/
def plain (called : Bool) : Token → Token
  | .function _ => if called then functionToken "" .unresolved else .ident ""
  | .ident _ => .ident ""
  | token => token

theorem endsOperand_plain (called : Bool) (token : Token) :
    (token.plain called).endsOperand = token.endsOperand := by
  cases token with
  | function f => cases called <;> rfl
  | keyword _ | bool _ | int _ | float _ | str _ | list _ | path _ | operator _ _ | punct _
  | ident _ => rfl

theorem isFunction_plain (token : Token) : (token.plain true).isFunction = token.isFunction := by
  cases token <;> rfl

/-- Whether something is called matters for functions only. -/
theorem plain_of_not_isFunction {token : Token} (h : token.isFunction = false)
    (called other : Bool) : token.plain called = token.plain other := by
  cases token with
  | function f => cases h
  | keyword _ | bool _ | int _ | float _ | str _ | list _ | path _ | operator _ _ | punct _
  | ident _ => rfl

theorem plain_withArity (called : Bool) (arity : Nat) (token : Token) :
    (token.withArity arity).plain called = token.plain called := by
  cases token <;> rfl

end Token

/-- The tokens without their names. -/
def plainTokens : List Token → List Token
  | [] => []
  | token :: rest => token.plain (opensNext rest) :: plainTokens rest

theorem plainTokens_called (f : FunctionRef) {rest : List Token} (h : opensNext rest = true) :
    plainTokens (.function f :: rest) = functionToken "" .unresolved :: plainTokens rest := by
  rw [plainTokens, h]
  rfl

theorem plainTokens_named (f : FunctionRef) {rest : List Token} (h : opensNext rest = false) :
    plainTokens (.function f :: rest) = .ident "" :: plainTokens rest := by
  rw [plainTokens, h]
  rfl

theorem opensNext_plainTokens (tokens : List Token) :
    opensNext (plainTokens tokens) = opensNext tokens := by
  cases tokens with
  | nil => rfl
  | cons token rest =>
      cases token with
      | function f =>
          cases hopens : opensNext rest with
          | true =>
              rw [plainTokens_called f hopens]
              rfl
          | false =>
              rw [plainTokens_named f hopens]
              rfl
      | punct p => cases p <;> rfl
      | keyword _ | bool _ | int _ | float _ | str _ | list _ | path _ | operator _ _
      | ident _ => rfl

/-! ## Counting arguments -/

theorem countArguments_of_not_opens {tokens : List Token} (h : opensNext tokens = false)
    (previous other : Option Token) (place : Nat) (groups : List Group) :
    countArguments previous place groups tokens = countArguments other place groups tokens := by
  cases tokens with
  | nil => rfl
  | cons token rest =>
      cases token with
      | punct p =>
          cases p with
          | opening => cases h
          | closing => cases groups <;> rfl
          | comma =>
              cases groups with
              | nil => rfl
              | cons g outer =>
                  obtain ⟨function, commas, hasContent⟩ := g
                  cases function <;> rfl
      | keyword _ | bool _ | int _ | float _ | str _ | list _ | path _ | operator _ _ | ident _
      | function _ => rfl

theorem countArguments_plainTokens (previous : Option Token) (place : Nat) (groups : List Group)
    (tokens : List Token) :
    countArguments previous place groups (plainTokens tokens) =
      countArguments previous place groups tokens := by
  induction tokens generalizing previous place groups with
  | nil => rfl
  | cons token rest ih =>
      cases token with
      | function f =>
          cases hopens : opensNext rest with
          | true =>
              have hsame : countArguments (some (functionToken "" .unresolved)) (place + 1)
                  (markContent groups) rest =
                  countArguments (some (.function f)) (place + 1) (markContent groups) rest := by
                apply countArguments_congr
                rfl
              rw [plainTokens_called f hopens]
              exact (ih _ _ _).trans hsame
          | false =>
              rw [plainTokens_named f hopens]
              exact (ih _ _ _).trans (countArguments_of_not_opens hopens _ _ _ _)
      | punct p =>
          cases p with
          | opening => exact ih _ _ _
          | closing =>
              cases groups with
              | nil => rfl
              | cons g outer =>
                  simp only [plainTokens, Token.plain, countArguments, ih]
          | comma =>
              cases groups with
              | nil => rfl
              | cons g outer =>
                  obtain ⟨function, commas, hasContent⟩ := g
                  cases function with
                  | none => rfl
                  | some f => exact ih _ _ _
      | ident name =>
          have hsame : countArguments (some (.ident "")) (place + 1) (markContent groups) rest =
              countArguments (some (.ident name)) (place + 1) (markContent groups) rest := by
            apply countArguments_congr
            rfl
          exact (ih _ _ _).trans hsame
      | keyword _ | bool _ | int _ | float _ | str _ | list _ | path _ | operator _ _ =>
          exact ih _ _ _

theorem plainTokens_mapIdx {f : Nat → Token → Token}
    (hf : ∀ place token, f place token = token ∨ ∃ arity, f place token = token.withArity arity)
    (tokens : List Token) : plainTokens (tokens.mapIdx f) = plainTokens tokens := by
  induction tokens generalizing f with
  | nil => rfl
  | cons token rest ih =>
      have hrest := ih fun place => hf (place + 1)
      have hopens : opensNext (rest.mapIdx fun place => f (place + 1)) = opensNext rest := by
        rw [← opensNext_plainTokens, hrest, opensNext_plainTokens]
      rw [List.mapIdx_cons, plainTokens, plainTokens, hrest, hopens]
      rcases hf 0 token with hsame | ⟨arity, harity⟩
      · rw [hsame]
      · rw [harity, Token.plain_withArity]

theorem plainTokens_setArities (counts : List (Nat × Nat)) (tokens : List Token) :
    plainTokens (setArities counts tokens) = plainTokens tokens := by
  refine plainTokens_mapIdx (fun place token => ?_) tokens
  split
  · next count _ => exact .inr ⟨count.2, rfl⟩
  · exact .inl rfl

/-! ## The order of evaluation -/

/-- What is held, without its name; of functions only those that are called are held. -/
def Held.plain (held : Held) : Held := (held.1, held.2.plain true)

theorem Held.isOpening_plain (held : Held) : held.plain.isOpening = held.isOpening := by
  obtain ⟨place, token⟩ := held
  cases token <;> rfl

theorem Held.not_isOpening_plain (held : Held) :
    (!held.plain.isOpening) = !held.isOpening := congrArg Bool.not held.isOpening_plain

theorem Held.precedes_plain (op : Operator) (held : Held) :
    held.plain.precedes op = held.precedes op := by
  obtain ⟨place, token⟩ := held
  cases token <;> rfl

theorem Held.map_plain (held : List Held) : (held.map Held.plain).map (·.1) = held.map (·.1) := by
  simp [Held.plain]

theorem release_plain (held : List Held) : release (held.map Held.plain) = release held := by
  have hany : (held.map Held.plain).any Held.isOpening = held.any Held.isOpening := by
    rw [List.any_map]
    exact congrArg held.any (funext Held.isOpening_plain)
  rw [release, release, hany, Held.map_plain]

theorem takeWhile_plain {p : Held → Bool} (hp : ∀ held, p held.plain = p held)
    (held : List Held) :
    ((held.map Held.plain).takeWhile p).map (·.1) = (held.takeWhile p).map (·.1) := by
  have hcomp : p ∘ Held.plain = p := funext hp
  rw [List.takeWhile_map, hcomp, Held.map_plain]

theorem dropWhile_plain {p : Held → Bool} (hp : ∀ held, p held.plain = p held)
    (held : List Held) :
    (held.map Held.plain).dropWhile p = (held.dropWhile p).map Held.plain := by
  have hcomp : p ∘ Held.plain = p := funext hp
  rw [List.dropWhile_map, hcomp]

section Step

variable {rest : List Token}
  (hrest : ∀ place held,
    orderFrom place (held.map Held.plain) (plainTokens rest) = orderFrom place held rest)
include hrest

theorem orderFrom_function_plain (place : Nat) (held : List Held) (f : FunctionRef) :
    orderFrom place (held.map Held.plain) (plainTokens (.function f :: rest)) =
      orderFrom place held (.function f :: rest) := by
  cases hopens : opensNext rest with
  | true =>
      have hcalled := (opensNext_plainTokens rest).trans hopens
      rw [plainTokens_called f hopens, functionToken, orderFrom, hcalled, if_pos rfl, orderFrom,
        hopens, if_pos rfl]
      exact hrest (place + 1) ((place, .function f) :: held)
  | false =>
      rw [plainTokens_named f hopens, orderFrom_name _ _ _ _ hopens, orderFrom_operand _ _ _ rfl,
        hrest]

theorem orderFrom_operator_plain (place : Nat) (held : List Held) (op : Operator)
    (fixity : Fixity) :
    orderFrom place (held.map Held.plain) (.operator op fixity :: plainTokens rest) =
      orderFrom place held (.operator op fixity :: rest) := by
  cases fixity with
  | before => exact hrest (place + 1) ((place, .operator op .before) :: held)
  | after => rw [orderFrom_after, orderFrom_after, hrest]
  | between =>
      have hlater := hrest (place + 1)
        ((place, .operator op .between) :: held.dropWhile (Held.precedes op))
      rw [orderFrom_between, orderFrom_between, ← hlater,
        takeWhile_plain (Held.precedes_plain op), dropWhile_plain (Held.precedes_plain op)]
      rfl

theorem orderFrom_comma_plain (place : Nat) (held : List Held) :
    orderFrom place (held.map Held.plain) (.punct .comma :: plainTokens rest) =
      orderFrom place held (.punct .comma :: rest) := by
  rw [orderFrom, orderFrom, takeWhile_plain Held.not_isOpening_plain,
    dropWhile_plain Held.not_isOpening_plain]
  cases held.dropWhile (!·.isOpening) with
  | nil => rfl
  | cons opening outer =>
      show (orderFrom (place + 1) ((opening :: outer).map Held.plain) _ >>= _) =
        (orderFrom (place + 1) (opening :: outer) rest >>= _)
      rw [hrest]

theorem orderFrom_closing_plain (place : Nat) (held : List Held) :
    orderFrom place (held.map Held.plain) (.punct .closing :: plainTokens rest) =
      orderFrom place held (.punct .closing :: rest) := by
  rw [orderFrom, orderFrom, takeWhile_plain Held.not_isOpening_plain,
    dropWhile_plain Held.not_isOpening_plain]
  cases held.dropWhile (!·.isOpening) with
  | nil => rfl
  | cons opening outer =>
      cases outer with
      | nil =>
          show (orderFrom (place + 1) (([] : List Held).map Held.plain) _ >>= _) =
            (orderFrom (place + 1) [] rest >>= _)
          rw [hrest]
      | cons below outer =>
          -- A function that was called is let go as well.
          obtain ⟨f, token⟩ := below
          cases token with
          | function g =>
              show (orderFrom (place + 1) (outer.map Held.plain) _ >>= _) =
                (orderFrom (place + 1) outer rest >>= _)
              rw [hrest]
          | keyword _ | bool _ | int _ | float _ | str _ | list _ | path _ | operator _ _
          | punct _ | ident _ =>
              show (orderFrom (place + 1) (((f, _) :: outer).map Held.plain) _ >>= _) =
                (orderFrom (place + 1) ((f, _) :: outer) rest >>= _)
              rw [hrest]

end Step

theorem orderFrom_plain (place : Nat) (held : List Held) (tokens : List Token) :
    orderFrom place (held.map Held.plain) (plainTokens tokens) = orderFrom place held tokens := by
  induction tokens generalizing place held with
  | nil => exact release_plain held
  | cons token rest ih =>
      cases token with
      | function f => exact orderFrom_function_plain ih place held f
      | operator op fixity => exact orderFrom_operator_plain ih place held op fixity
      | keyword k => exact ih (place + 1) ((place, .keyword k) :: held)
      | punct p =>
          cases p with
          | opening => exact ih (place + 1) ((place, .punct .opening) :: held)
          | comma => exact orderFrom_comma_plain ih place held
          | closing => exact orderFrom_closing_plain ih place held
      | bool _ | int _ | float _ | str _ | list _ | path _ | ident _ =>
          rw [plainTokens, orderFrom_operand _ _ _ rfl, orderFrom_operand _ _ _ rfl, ih]

theorem postorder_plainTokens (tokens : List Token) :
    postorder (plainTokens tokens) = postorder tokens := orderFrom_plain 0 [] tokens

/-! ## Tokens of lexemes -/

/-- Neither `temp` nor `return` is taken for a function. -/
def Symbols.SpareKeywords (symbols : Symbols) : Prop :=
  ∀ k : Keyword, symbols.external k.text = false ∧ symbols.story k.text = false

theorem Symbols.spareKeywords_none : Symbols.none.SpareKeywords := fun _ => ⟨rfl, rfl⟩

theorem classifyName_keyword {symbols : Symbols} (h : symbols.SpareKeywords) (k : Keyword)
    (called : Bool) : classifyName symbols k.text called = .keyword k := by
  have hbuiltin : Builtin.ofName? k.text = none := by
    cases k <;> decide
  simp only [classifyName, hbuiltin, h k, Bool.false_eq_true, if_false]
  cases k <;> rfl

/-- A name that is no keyword becomes an operand, or a call where something is called. -/
theorem plain_classifyName {name : String} (hbuiltin : Builtin.ofName? name = none)
    (hkeyword : ∀ k : Keyword, name ≠ k.text) (symbols : Symbols) (called : Bool) :
    (classifyName symbols name called).plain called =
      if called then functionToken "" .unresolved else .ident "" := by
  have hfunction (kind : CallKind) : (functionToken name kind).plain called =
      if called then functionToken "" .unresolved else .ident "" := rfl
  have htemp : name ≠ "temp" := hkeyword .temp
  have hreturn : name ≠ "return" := hkeyword .ret
  simp only [classifyName, hbuiltin, htemp, hreturn, if_false]
  split
  · exact hfunction _
  · split
    · exact hfunction _
    · cases called with
      | true => exact hfunction _
      | false => rfl

theorem plain_classify {symbols : Symbols} (h : symbols.SpareKeywords) (name : String)
    (called : Bool) :
    (classify symbols name called).plain called =
      (classify Symbols.none name called).plain called := by
  unfold classify
  split
  · rfl
  · split
    · rfl
    · split
      · rfl
      · cases hbuiltin : Builtin.ofName? name with
        | some b => simp only [classifyName, hbuiltin]
        | none =>
            by_cases hkeyword : ∃ k : Keyword, name = k.text
            · obtain ⟨k, rfl⟩ := hkeyword
              rw [classifyName_keyword h, classifyName_keyword Symbols.spareKeywords_none]
            · have hname (k : Keyword) (heq : name = k.text) : False := hkeyword ⟨k, heq⟩
              rw [plain_classifyName hbuiltin hname, plain_classifyName hbuiltin hname]

/-- What a lexeme becomes does not depend on the names that are known, nor on more of the token
before it than whether an operand ends there. -/
theorem plain_tokenOf {symbols : Symbols} (h : symbols.SpareKeywords)
    {previous other : Option Token} (hprevious : afterOperand previous = afterOperand other)
    (piece : Piece) (called : Bool) :
    (tokenOf symbols previous piece called).map (Token.plain called) =
      (tokenOf Symbols.none other piece called).map (Token.plain called) := by
  unfold tokenOf
  rw [hprevious]
  cases piece.lexeme with
  | word name => exact congrArg Except.ok (plain_classify h _ called)
  | _ => rfl

theorem classify_ne_punct (symbols : Symbols) (name : String) (called : Bool) (p : Punct) :
    classify symbols name called ≠ .punct p := by
  unfold classify classifyName functionToken
  repeat' split
  all_goals exact nofun

theorem opensNext_of_ne {token : Token} (h : token ≠ .punct .opening) (rest : List Token) :
    opensNext (token :: rest) = false := by
  unfold opensNext
  split
  · next heq => exact absurd (List.cons.inj heq).1 h
  · rfl

theorem tokenOf_ne_opening {symbols : Symbols} {previous : Option Token} {piece : Piece}
    {called : Bool} {token : Token} (hpiece : piece.lexeme ≠ .openParen)
    (h : tokenOf symbols previous piece called = .ok token) : token ≠ .punct .opening := by
  unfold tokenOf at h
  rintro rfl
  split at h
  · next hopen => exact hpiece hopen
  · cases h
  · cases h
  · cases h
  · cases h
  · cases h
  · split at h <;> cases h
  · cases h
  · cases h
  · split at h <;> cases h
  · split at h <;> cases h
  · exact classify_ne_punct _ _ _ _ (Except.ok.inj h)

theorem tokensOf_not_path {symbols : Symbols} {size : Nat} {previous : Option Token}
    {piece : Piece} (hname : ∀ name, piece.lexeme ≠ .word name) (rest : List Piece) :
    tokensOf symbols size previous true (piece :: rest) = .error (.expectedPath piece.offset) := by
  rw [tokensOf.eq_def]
  dsimp only
  rw [if_pos rfl]
  split
  · next name hword => exact absurd hword (hname name)
  · rfl

theorem opensNext_of_path {symbols : Symbols} {size : Nat} {previous : Option Token}
    {pieces : List Piece} {tokens : List Token}
    (h : tokensOf symbols size previous true pieces = .ok tokens) : opensNext tokens = false := by
  cases pieces with
  | nil => cases h
  | cons piece rest =>
      by_cases hname : ∃ name, piece.lexeme = .word name
      · obtain ⟨name, hname⟩ := hname
        rw [tokensOf_path hname] at h
        obtain ⟨tail, _, hcons⟩ := Outcome.of_bind_eq_ok h
        cases hcons
        rfl
      · rw [tokensOf_not_path (fun name hword => hname ⟨name, hword⟩)] at h
        cases h

/-- Where a function is called, its parentheses are no empty list. -/
theorem opensNext_of_tokensOf {symbols : Symbols} {size : Nat} {previous : Token}
    {pieces : List Piece} {tokens : List Token}
    (h : tokensOf symbols size (some previous) false pieces = .ok tokens) :
    opensNext tokens = isCalled pieces ∨ previous.isFunction = false := by
  cases pieces with
  | nil =>
      cases h
      exact .inl rfl
  | cons piece rest =>
      by_cases harrow : piece.lexeme = .arrow
      · rw [tokensOf_arrow harrow] at h
        left
        rw [opensNext_of_path h, isCalled, harrow]
        rfl
      by_cases hopen : piece.lexeme = .openParen
      · cases rest with
        | nil =>
            rw [tokensOf_other harrow fun _ => rfl, tokenOf, hopen] at h
            cases h
            left
            rw [isCalled, hopen]
            rfl
        | cons next later =>
            rw [tokensOf_opening hopen] at h
            split at h
            · next hempty =>
                right
                simpa using (Bool.and_eq_true_iff.mp hempty).2
            · obtain ⟨tail, _, hcons⟩ := Outcome.of_bind_eq_ok h
              cases hcons
              left
              rw [isCalled, hopen]
              rfl
      · rw [tokensOf_other harrow fun heq => absurd heq hopen] at h
        obtain ⟨token, htoken, h⟩ := Outcome.of_bind_eq_ok h
        obtain ⟨tail, _, hcons⟩ := Outcome.of_bind_eq_ok h
        cases hcons
        left
        rw [opensNext_of_ne (tokenOf_ne_opening hopen htoken), isCalled, decide_eq_false hopen]

/-- Whether a function is called can be told from the lexemes or from the tokens behind it. -/
theorem plain_opensNext {symbols : Symbols} {size : Nat} {token : Token} {pieces : List Piece}
    {tokens : List Token} (h : tokensOf symbols size (some token) false pieces = .ok tokens) :
    token.plain (opensNext tokens) = token.plain (isCalled pieces) := by
  rcases opensNext_of_tokensOf h with heq | hother
  · rw [heq]
  · exact Token.plain_of_not_isFunction hother _ _

theorem Token.alike_of_plain_eq {token other : Token} {called : Bool}
    (h : token.plain called = other.plain called) :
    token.endsOperand = other.endsOperand ∧
      (called = true → token.isFunction = other.isFunction) := by
  constructor
  · rw [← token.endsOperand_plain called, h, endsOperand_plain]
  · rintro rfl
    rw [← token.isFunction_plain, h, isFunction_plain]

theorem map_plainTokens_cons {token other : Token} {tail otherTail : Except ExprFault (List Token)}
    (htail : tail.map plainTokens = otherTail.map plainTokens)
    (htoken : ∀ tokens others, tail = .ok tokens → otherTail = .ok others →
      token.plain (opensNext tokens) = other.plain (opensNext others)) :
    (do return token :: (← tail) : Except ExprFault (List Token)).map plainTokens =
      (do return other :: (← otherTail) : Except ExprFault (List Token)).map plainTokens := by
  refine Outcome.map_bind_congr htail fun tokens others htokens hothers hplain => ?_
  show Except.ok (plainTokens (token :: tokens)) = Except.ok (plainTokens (other :: others))
  rw [plainTokens, plainTokens, hplain, htoken tokens others htokens hothers]

theorem plain_tokensOf {symbols : Symbols} (h : symbols.SpareKeywords) {size : Nat}
    {previous other : Option Token} {inPath : Bool} {pieces : List Piece}
    (hprevious : inPath = false → afterOperand previous = afterOperand other ∧
      (isCalled pieces = true → previous.any Token.isFunction = other.any Token.isFunction)) :
    (tokensOf symbols size previous inPath pieces).map plainTokens =
      (tokensOf Symbols.none size other inPath pieces).map plainTokens := by
  fun_induction tokensOf symbols size previous inPath pieces generalizing other with
  | case1 => rfl
  | case2 previous inPath hpath => rw [tokensOf, if_neg hpath]
  | case3 previous piece rest name hname token =>
      rename_i ih
      rw [tokensOf_path hname]
      exact map_plainTokens_cons (ih fun _ => ⟨rfl, fun _ => rfl⟩) fun _ _ _ _ => rfl
  | case4 previous piece rest hname => rw [tokensOf_not_path hname]
  | case5 previous inPath piece hpath rest harrow ih =>
      obtain rfl := eq_false_of_ne_true hpath
      rw [tokensOf_arrow harrow]
      exact ih fun hfalse => absurd hfalse.symm Bool.false_ne_true
  | case6 previous inPath piece hpath next later hopen hempty token =>
      rename_i ih
      obtain rfl := eq_false_of_ne_true hpath
      have hfunction := (hprevious rfl).2 (decide_eq_true hopen)
      rw [tokensOf_opening hopen, ← hfunction, if_pos hempty]
      exact map_plainTokens_cons (ih fun _ => ⟨rfl, fun _ => rfl⟩) fun _ _ _ _ => rfl
  | case7 previous inPath piece hpath next later hopen hempty token =>
      rename_i ih
      obtain rfl := eq_false_of_ne_true hpath
      have hfunction := (hprevious rfl).2 (decide_eq_true hopen)
      rw [tokensOf_opening hopen, ← hfunction, if_neg hempty]
      exact map_plainTokens_cons (ih fun _ => ⟨rfl, fun _ => rfl⟩) fun _ _ _ _ => rfl
  | case8 previous inPath piece hpath rest harrow hopen ih =>
      obtain rfl := eq_false_of_ne_true hpath
      have hopen' (heq : piece.lexeme = .openParen) : rest = [] := by
        cases rest with
        | nil => rfl
        | cons next later => exact absurd rfl (hopen next later heq)
      rw [tokensOf_other harrow hopen']
      refine Outcome.map_bind_congr (plain_tokenOf h (hprevious rfl).1 piece (isCalled rest)) ?_
      intro token token' _ _ hplain
      refine map_plainTokens_cons (ih token fun _ => Token.alike_of_plain_eq hplain) ?_
      intro tokens tokens' htokens htokens'
      rw [plain_opensNext htokens, plain_opensNext htokens', hplain]

/-! ## Expressions -/

theorem plain_tokenize {symbols : Symbols} (h : symbols.SpareKeywords) (source : String) :
    (tokenize symbols source).map plainTokens = (tokenize Symbols.none source).map plainTokens := by
  have hlex : (lex source.toList).map id = (lex source.toList).map id := rfl
  refine Outcome.map_bind_congr hlex ?_
  rintro pieces _ _ _ rfl
  refine Outcome.map_bind_congr (plain_tokensOf h fun _ => ⟨rfl, fun _ => rfl⟩) ?_
  intro tokens tokens' _ _ hplain
  have hcounts : countArguments none 0 [] tokens = countArguments none 0 [] tokens' := by
    rw [← countArguments_plainTokens, hplain, countArguments_plainTokens]
  refine Outcome.map_bind_congr (congrArg (Except.map id) hcounts) ?_
  rintro counts _ _ _ rfl
  show Except.ok (plainTokens (setArities counts tokens)) =
    Except.ok (plainTokens (setArities counts tokens'))
  rw [plainTokens_setArities, plainTokens_setArities, hplain]

/-- Whether a source can be read, and in which order it is evaluated, does not depend on the names
that are known. -/
theorem Expression.plain_parse {symbols : Symbols} (h : symbols.SpareKeywords) (source : String) :
    (parse symbols source).map (fun e => (e.source, plainTokens e.tokens, e.order)) =
      (parse Symbols.none source).map (fun e => (e.source, plainTokens e.tokens, e.order)) := by
  refine Outcome.map_bind_congr (plain_tokenize h source) ?_
  intro tokens tokens' _ _ hplain
  have horder : postorder tokens = postorder tokens' := by
    rw [← postorder_plainTokens, hplain, postorder_plainTokens]
  have hempty : tokens.isEmpty = tokens'.isEmpty := by
    cases tokens <;> cases tokens' <;> first | rfl | cases hplain
  rw [hempty, horder]
  cases tokens'.isEmpty with
  | true => rfl
  | false =>
      cases postorder tokens' with
      | error fault => rfl
      | ok order =>
          show Except.ok (Text.trim source, plainTokens tokens, order) =
            Except.ok (Text.trim source, plainTokens tokens', order)
          rw [hplain]

/-- What can be read where some names are known can be read where none is. -/
theorem Expression.exists_parse_none {symbols : Symbols} (h : symbols.SpareKeywords)
    {source : String} {e : Expression} (hparse : parse symbols source = .ok e) :
    ∃ e', parse Symbols.none source = .ok e' ∧ e'.source = e.source := by
  have hplain := plain_parse h source
  rw [hparse] at hplain
  cases hnone : parse Symbols.none source with
  | error fault =>
      rw [hnone] at hplain
      cases hplain
  | ok e' =>
      rw [hnone] at hplain
      exact ⟨e', rfl, (Prod.mk.inj (Except.ok.inj hplain)).1.symm⟩

end Skein
