import Skein.Proofs.Expr.Spelling

set_option autoImplicit false

/-!
# Expr: reading a written tree

A tree that is written down token by token is read as the tokens it was written from.  What
a minus, a step sign, a pair of parentheses or a name means is not in its spelling: it is
found again from the token before and the lexeme behind, and the arguments of a call are
counted in a pass of their own.  So the proof has three parts.  In the tokens of a tree every
token has the neighbours its reading asks for (`Suited`).  Tokens with such neighbours are read
as they were written, but for the number of arguments.  The last pass finds that number at
every call, however deep it stands.
-/

namespace Skein

/-! ## Trees that can be written -/

/-- The words that are no names. -/
def reservedWords : List String :=
  ["and", "or", "not", "mod", "has", "hasnt", "true", "false", "temp", "return"]

/-- Where a called name is defined: the first of the places that know it, in this order. -/
def Symbols.kindOf (symbols : Symbols) (name : String) : CallKind :=
  match Builtin.ofName? name with
  | some b => .builtin b
  | .none =>
    if symbols.external name then .external
    else if symbols.story name then .story
    else if symbols.list name then .subscript
    else .unresolved

/-- A name that stands for a variable. -/
structure Symbols.IsVariable (symbols : Symbols) (name : String) : Prop where
  isName : IsName name.toList
  free : name ∉ reservedWords
  builtin : Builtin.ofName? name = .none
  external : symbols.external name = false
  story : symbols.story name = false

/-- A function as its call is read: the name can be called, and is defined where it is found
first. -/
structure Symbols.IsFunction (symbols : Symbols) (f : FunctionRef) : Prop where
  isName : IsName f.name.toList
  free : f.name ∉ reservedWords
  kind : f.kind = symbols.kindOf f.name

/-- Operands that can be written: texts, integers that are not negative, truth values, paths,
the empty list and variables. -/
inductive Token.IsLiteral (symbols : Symbols) : Token → Prop where
  | bool (b : Bool) : IsLiteral symbols (.bool b)
  | int {n : Int64} (hn : 0 ≤ n.toInt) : IsLiteral symbols (.int n)
  | str (s : String) : IsLiteral symbols (.str s)
  | emptyList : IsLiteral symbols (.list .empty)
  | path {p : String} (hp : IsName p.toList) : IsLiteral symbols (.path p)
  | ident {name : String} (hname : symbols.IsVariable name) : IsLiteral symbols (.ident name)

namespace Tree

/-- Trees of operands that can be written, in which every call has the kind of its name and
the number of its arguments. -/
inductive Resolved (symbols : Symbols) : Tree → Prop where
  | operand {atom : Atom} (hatom : atom.1.IsLiteral symbols) : Resolved symbols (.operand atom)
  | before (op : LeadingOp) {inner : Tree} (hinner : Resolved symbols inner) :
      Resolved symbols (.before op inner)
  | after (op : TrailingOp) {inner : Tree} (hinner : Resolved symbols inner) :
      Resolved symbols (.after op inner)
  | between (op : JoiningOp) {lhs rhs : Tree} (hlhs : Resolved symbols lhs)
      (hrhs : Resolved symbols rhs) : Resolved symbols (.between op lhs rhs)
  | group {inner : Tree} (hinner : Resolved symbols inner) : Resolved symbols (.group inner)
  | call {f : FunctionRef} {args : List Tree} (hf : symbols.IsFunction f)
      (harity : f.arity = args.length) (hargs : ∀ arg ∈ args, Resolved symbols arg) :
      Resolved symbols (.call f args)

end Tree

theorem Token.IsLiteral.exists_spells {symbols : Symbols} {token : Token}
    (h : token.IsLiteral symbols) : ∃ text, token.Spells text := by
  cases h with
  | bool b => exact ⟨_, .bool b⟩
  | int hn => exact ⟨_, .int hn⟩
  | str s =>
      obtain ⟨body, hbody⟩ := exists_quotes s.toList
      exact ⟨_, .str hbody⟩
  | emptyList => exact ⟨_, .emptyList isGap_nil⟩
  | path hp => exact ⟨_, .path isGap_nil hp⟩
  | ident hname => exact ⟨_, .ident hname.isName⟩

namespace Tree

variable {symbols : Symbols}

theorem exists_spells_of_mem_laterTokens {args : List Tree}
    (hargs : ∀ arg ∈ args, ∀ token ∈ arg.tokens, ∃ text, token.Spells text) :
    ∀ token ∈ laterTokens args, ∃ text, token.Spells text := by
  induction args with
  | nil => simp [laterTokens]
  | cons arg args ih =>
      obtain ⟨harg, hargs⟩ := List.forall_mem_cons.mp hargs
      intro token htoken
      simp only [laterTokens, List.mem_cons, List.mem_append] at htoken
      rcases htoken with rfl | htoken | htoken
      · exact ⟨_, .punct .comma⟩
      · exact harg token htoken
      · exact ih hargs token htoken

/-- Every token of a tree that can be written has a spelling. -/
theorem Resolved.exists_spells {t : Tree} (ht : t.Resolved symbols) :
    ∀ token ∈ t.tokens, ∃ text, token.Spells text := by
  induction ht with
  | operand hatom => simpa [tokens] using hatom.exists_spells
  | before op _ ih =>
      simp only [tokens, List.forall_mem_cons]
      exact ⟨⟨_, .sign _ _⟩, ih⟩
  | after op _ ih =>
      simp only [tokens, List.forall_mem_append, List.forall_mem_singleton]
      exact ⟨ih, _, .sign _ _⟩
  | between op _ _ ihl ihr =>
      simp only [tokens, List.forall_mem_append, List.forall_mem_cons]
      exact ⟨ihl, ⟨_, .sign _ _⟩, ihr⟩
  | group _ ih =>
      simp only [tokens, List.forall_mem_append, List.forall_mem_cons]
      exact ⟨⟨_, .punct _⟩, ih, ⟨_, .punct _⟩, by simp⟩
  | @call f args hf _ _ ih =>
      have hargs : ∀ token ∈ argumentTokens args, ∃ text, token.Spells text := by
        cases args with
        | nil => simp [argumentTokens]
        | cons arg args =>
            obtain ⟨harg, hargs⟩ := List.forall_mem_cons.mp ih
            simp only [argumentTokens, List.forall_mem_append]
            exact ⟨harg, exists_spells_of_mem_laterTokens hargs⟩
      simp only [tokens, List.forall_mem_append, List.forall_mem_cons]
      exact ⟨⟨_, .function hf.isName⟩, ⟨_, .punct _⟩, hargs, ⟨_, .punct _⟩, by simp⟩

end Tree

/-! ## Neighbours -/

/-- Whether the spelling of a token starts with an opening parenthesis. -/
def Token.opens : Token → Bool
  | .punct .opening => true
  | .list _ => true
  | _ => false

/-- What the tokens around a token must be for its spelling to be read as this token. -/
def Token.Suits (symbols : Symbols) (previous next : Option Token) : Token → Prop
  | .operator op .before => op.unary?.isSome = true ∧ afterOperand previous = false
  | .operator op .after => (op = .increment ∨ op = .decrement) ∧ afterOperand previous = true
  | .operator op .between => op.unary?.isNone = true ∧ afterOperand previous = true
  | .punct .opening => previous.any Token.isFunction = true ∨ next ≠ some (.punct .closing)
  | .list _ => previous.any Token.isFunction = false
  | .function f => symbols.IsFunction f ∧ next = some (.punct .opening)
  | .ident name => symbols.IsVariable name ∧ next.any Token.opens = false
  | _ => True

/-- Every one of the tokens after a previous one has the neighbours it needs. -/
def Suited (symbols : Symbols) (previous : Option Token) : List Token → Prop
  | [] => True
  | token :: rest => token.Suits symbols previous rest.head? ∧ Suited symbols (some token) rest

namespace Token

variable {symbols : Symbols}

/-- An operand has no special needs after a token that ends none. -/
theorem IsLiteral.suits {token : Token} (h : token.IsLiteral symbols) {previous next : Option Token}
    (hprevious : afterOperand previous = false) (hnext : next.any opens = false) :
    token.Suits symbols previous next := by
  cases h with
  | emptyList =>
      cases previous with
      | none => rfl
      | some previous => cases previous <;> simp_all [Suits, afterOperand, endsOperand, isFunction]
  | ident hname => exact ⟨hname, hnext⟩
  | bool | int | str | path => trivial

theorem IsLiteral.ne_punct {token : Token} (h : token.IsLiteral symbols) (p : Punct) :
    token ≠ .punct p := by
  cases h <;> simp

theorem IsLiteral.isFunction_eq {token : Token} (h : token.IsLiteral symbols) :
    token.isFunction = false := by
  cases h <;> rfl

theorem endsOperand_of_isOperand {token : Token} (h : token.isOperand = true) :
    token.endsOperand = true := by
  cases token <;> simp_all [endsOperand, isOperand]

end Token

namespace Tree

variable {symbols : Symbols}

/-- No tree is written with a closing parenthesis first. -/
theorem Resolved.head?_tokens {t : Tree} (ht : t.Resolved symbols) (rest : List Token) :
    ∃ token, (t.tokens ++ rest).head? = some token ∧ token ≠ .punct .closing := by
  induction ht generalizing rest with
  | @operand atom hatom => exact ⟨atom.1, rfl, hatom.ne_punct _⟩
  | before | group | call => exact ⟨_, rfl, by simp⟩
  | after op _ ih => simpa only [tokens, List.append_assoc] using ih _
  | between op _ _ ihl _ => simpa only [tokens, List.append_assoc] using ihl _

/-- What stands behind a tree: whatever token the tree ends with, the rest has the neighbours
it needs, and it does not make a call of the tree. -/
structure Follows (symbols : Symbols) (rest : List Token) : Prop where
  suited : ∀ last : Token, last.endsOperand = true → Suited symbols (some last) rest
  opens : rest.head?.any Token.opens = false

theorem follows_nil : Follows symbols [] := ⟨fun _ _ => trivial, rfl⟩

theorem follows_closing {rest : List Token} (h : Follows symbols rest) :
    Follows symbols (.punct .closing :: rest) :=
  ⟨fun _ _ => ⟨trivial, h.suited _ rfl⟩, rfl⟩

theorem suited_laterTokens {args : List Tree} {rest : List Token}
    (hargs : ∀ arg ∈ args, ∀ {previous : Option Token} {rest : List Token},
      afterOperand previous = false → Follows symbols rest →
        Suited symbols previous (arg.tokens ++ rest))
    (hrest : Follows symbols rest) : Follows symbols (laterTokens args ++ rest) := by
  induction args with
  | nil => exact hrest
  | cons arg args ih =>
      obtain ⟨harg, hargs⟩ := List.forall_mem_cons.mp hargs
      rw [laterTokens, List.cons_append, List.append_assoc]
      exact ⟨fun _ _ => ⟨trivial, harg rfl (ih hargs)⟩, rfl⟩

/-- The tokens of a tree have the neighbours they need, before whatever follows it. -/
theorem Resolved.suited {t : Tree} (ht : t.Resolved symbols) {previous : Option Token}
    {rest : List Token} (hprevious : afterOperand previous = false)
    (hrest : Follows symbols rest) : Suited symbols previous (t.tokens ++ rest) := by
  induction ht generalizing previous rest with
  | @operand atom hatom =>
      have hends := Token.endsOperand_of_isOperand atom.2
      exact ⟨hatom.suits hprevious hrest.opens, hrest.suited _ hends⟩
  | before op _ ih => exact ⟨⟨op.2, hprevious⟩, ih rfl hrest⟩
  | after op _ ih =>
      rw [tokens, List.append_assoc]
      refine ih hprevious ⟨?_, rfl⟩
      intro last hlast
      exact ⟨⟨op.2, hlast⟩, hrest.suited _ rfl⟩
  | between op _ _ ihl ihr =>
      rw [tokens, List.append_assoc]
      refine ihl hprevious ⟨?_, rfl⟩
      intro last hlast
      exact ⟨⟨op.2, hlast⟩, ihr rfl hrest⟩
  | @group inner hinner ih =>
      rw [tokens, List.cons_append, List.append_assoc]
      obtain ⟨token, htoken, hne⟩ := hinner.head?_tokens ([.punct .closing] ++ rest)
      refine ⟨.inr ?_, ih rfl (follows_closing hrest)⟩
      rw [htoken]
      simpa using hne
  | @call f args hf _ _ ih =>
      rw [tokens, List.cons_append, List.cons_append, List.append_assoc]
      refine ⟨⟨hf, rfl⟩, .inl rfl, ?_⟩
      cases args with
      | nil => exact ⟨trivial, hrest.suited _ rfl⟩
      | cons arg args =>
          obtain ⟨harg, hargs⟩ := List.forall_mem_cons.mp ih
          rw [argumentTokens, List.append_assoc]
          exact harg rfl (suited_laterTokens hargs (follows_closing hrest))

end Tree

/-! ## Reading tokens with their neighbours -/

section Reading

variable {symbols : Symbols}

theorem afterOperand_withArity (n : Nat) (previous : Option Token) :
    afterOperand (previous.map (Token.withArity n)) = afterOperand previous := by
  cases previous with
  | none => rfl
  | some token => cases token <;> rfl

theorem any_isFunction_withArity (n : Nat) (previous : Option Token) :
    (previous.map (Token.withArity n)).any Token.isFunction = previous.any Token.isFunction := by
  cases previous with
  | none => rfl
  | some token => cases token <;> rfl

theorem wordOperator?_of_free {name : String} (h : name ∉ reservedWords) :
    wordOperator? name = none := by
  unfold wordOperator?
  split
  case h_7 => rfl
  all_goals simp [reservedWords] at h

/-- A word that is not reserved is classified as a name. -/
theorem classify_of_free {name : String} (h : name ∉ reservedWords) (called : Bool) :
    classify symbols name called = classifyName symbols name called := by
  have htrue : name ≠ "true" := by
    rintro rfl
    simp [reservedWords] at h
  have hfalse : name ≠ "false" := by
    rintro rfl
    simp [reservedWords] at h
  rw [classify, wordOperator?_of_free h]
  dsimp only
  rw [if_neg htrue, if_neg hfalse]

theorem classify_variable {name : String} (h : symbols.IsVariable name) :
    classify symbols name false = .ident name := by
  have htemp : name ≠ "temp" := by
    rintro rfl
    exact h.free (by simp [reservedWords])
  have hreturn : name ≠ "return" := by
    rintro rfl
    exact h.free (by simp [reservedWords])
  rw [classify_of_free h.free, classifyName, h.builtin]
  dsimp only
  rw [h.external, h.story, if_neg htemp, if_neg hreturn]
  rfl

theorem classify_function {f : FunctionRef} (h : symbols.IsFunction f) :
    classify symbols f.name true = (Token.function f).withArity 0 := by
  have htemp : f.name ≠ "temp" := fun hname => h.free (by simp [reservedWords, hname])
  have hreturn : f.name ≠ "return" := fun hname => h.free (by simp [reservedWords, hname])
  rw [classify_of_free h.free, classifyName, Token.withArity, h.kind, Symbols.kindOf]
  cases Builtin.ofName? f.name with
  | some b => rfl
  | none =>
      dsimp only
      rw [if_neg htemp, if_neg hreturn]
      split
      · rfl
      · split
        · rfl
        · rfl

/-- The lexemes as pieces of a source.  Where they stand does not matter for their tokens. -/
def Lexeme.pieces (lexemes : List Lexeme) : List Piece := lexemes.map fun lexeme => ⟨lexeme, 0⟩

/-- A lexeme that is a token by itself. -/
theorem tokensOf_pieces_cons {size : Nat} {previous : Option Token} {lexeme : Lexeme}
    {later : List Lexeme} {token : Token} {tokens : List Token} (harrow : lexeme ≠ .arrow)
    (hopen : lexeme ≠ .openParen)
    (htoken : tokenOf symbols previous ⟨lexeme, 0⟩ (isCalled (Lexeme.pieces later)) = .ok token)
    (hlater : tokensOf symbols size (some token) false (Lexeme.pieces later) = .ok tokens) :
    tokensOf symbols size previous false (Lexeme.pieces ([lexeme] ++ later)) =
      .ok (token :: tokens) := by
  unfold Lexeme.pieces at htoken hlater ⊢
  rw [List.singleton_append, List.map_cons, tokensOf_other harrow (fun h => absurd h hopen), htoken]
  show (tokensOf symbols size (some token) false _ >>= _) = _
  rw [hlater]
  rfl

/-- The sign of an operator is read as the operator that its neighbours make of it. -/
theorem tokenOf_sign {op : Operator} {fixity : Fixity} {previous next : Option Token}
    (h : (Token.operator op fixity).Suits symbols previous next) (called : Bool) :
    tokenOf symbols (previous.map (Token.withArity 0)) ⟨op.lexeme, 0⟩ called =
      .ok (.operator op fixity) := by
  cases fixity with
  | before =>
      obtain ⟨hop, hprevious⟩ := h
      cases op with
      | negate | not | increment | decrement =>
          simp [tokenOf, Operator.lexeme, afterOperand_withArity, hprevious]
      | _ => cases hop
  | after =>
      obtain ⟨rfl | rfl, hprevious⟩ := h <;>
        simp [tokenOf, Operator.lexeme, afterOperand_withArity, hprevious]
  | between =>
      obtain ⟨hop, hprevious⟩ := h
      cases op with
      | negate | not | increment | decrement => cases hop
      | _ => simp [tokenOf, Operator.lexeme, afterOperand_withArity, hprevious]

theorem tokenOf_name (name : String) (previous : Option Token) (called : Bool) :
    tokenOf symbols previous ⟨.word name.toList, 0⟩ called =
      .ok (classify symbols name called) := by
  show Except.ok (classify symbols (String.ofList name.toList) called) = _
  rw [String.ofList_toList]

/-- The word of an operator is read as the operator where the tree has it. -/
theorem classify_word {op : Operator} {w : String} (hw : op.word? = some w) {fixity : Fixity}
    {previous next : Option Token} (h : (Token.operator op fixity).Suits symbols previous next)
    (called : Bool) : classify symbols w called = .operator op fixity := by
  have hfixity : fixity = if op = .not then .before else .between := by
    cases fixity with
    | before =>
        obtain ⟨hop, _⟩ := h
        cases op <;> simp_all [Operator.unary?, Operator.word?]
    | after => obtain ⟨rfl | rfl, _⟩ := h <;> cases hw
    | between =>
        obtain ⟨hop, _⟩ := h
        cases op <;> simp_all [Operator.unary?, Operator.word?]
  subst hfixity
  cases op <;> cases hw <;> rfl

theorem Operator.lexeme_ne (op : Operator) :
    op.lexeme ≠ .arrow ∧ op.lexeme ≠ .openParen ∧ op.lexeme ≠ .closeParen := by
  cases op <;> simp [lexeme]

/-- Written tokens start with an opening parenthesis if the first of them does. -/
theorem Cuts.isCalled_eq {tokens : List Token} {lexemes : List Lexeme} (h : Cuts tokens lexemes) :
    isCalled (Lexeme.pieces lexemes) = tokens.head?.any Token.opens := by
  cases h with
  | nil => rfl
  | cons hcut _ =>
      cases hcut with
      | sign op => exact decide_eq_false op.lexeme_ne.2.1
      | punct p => cases p <;> rfl
      | _ => rfl

/-- Written tokens start with a closing parenthesis only if the first of them is one. -/
theorem Cuts.head_ne_closeParen {tokens : List Token} {lexeme : Lexeme} {later : List Lexeme}
    (h : Cuts tokens (lexeme :: later)) (hhead : tokens.head? ≠ some (.punct .closing)) :
    lexeme ≠ .closeParen := by
  generalize hall : lexeme :: later = lexemes at h
  cases h with
  | nil => cases hall
  | cons hcut _ =>
      rintro rfl
      cases hcut with
      | sign op => exact op.lexeme_ne.2.2 (List.cons.inj hall).1.symm
      | punct p =>
          cases p with
          | closing => exact hhead rfl
          | _ => cases hall
      | _ => cases hall

/-- An opening parenthesis is read as one behind a function, or where it is not closed at
once. -/
theorem tokensOf_pieces_opening {tokens : List Token} {later : List Lexeme}
    (hlater : Cuts tokens later) {previous : Option Token}
    (hsuits : (Token.punct .opening).Suits symbols previous tokens.head?) {size : Nat}
    {read : List Token}
    (hread : tokensOf symbols size (some (.punct .opening)) false (Lexeme.pieces later) =
      .ok read) :
    tokensOf symbols size (previous.map (Token.withArity 0)) false
      (Lexeme.pieces ([.openParen] ++ later)) = .ok (.punct .opening :: read) := by
  cases later with
  | nil =>
      cases hread
      rfl
  | cons next later =>
      have hempty : (next = .closeParen && !(previous.map (Token.withArity 0)).any Token.isFunction)
          = false := by
        rw [any_isFunction_withArity]
        rcases hsuits with hfunction | hnext
        · rw [hfunction]
          exact Bool.and_false _
        · rw [decide_eq_false (hlater.head_ne_closeParen hnext)]
          rfl
      have hread : tokensOf symbols size (some (.punct .opening)) false
        (⟨next, 0⟩ :: Lexeme.pieces later) = .ok read := hread
      show tokensOf symbols size _ false (⟨.openParen, 0⟩ :: ⟨next, 0⟩ :: Lexeme.pieces later) = _
      rw [tokensOf_opening rfl, hempty]
      show (tokensOf symbols size (some (.punct .opening)) false _ >>= _) = _
      rw [hread]
      rfl

/-- The first of some written tokens is read as it was written, if it has its neighbours. -/
theorem Token.Cut.tokensOf_eq {token : Token} {lexemes : List Lexeme} (hcut : token.Cut lexemes)
    {tokens : List Token} {later : List Lexeme} (hlater : Cuts tokens later)
    {previous : Option Token} (hsuits : token.Suits symbols previous tokens.head?) {size : Nat}
    {read : List Token}
    (hread : tokensOf symbols size (some (token.withArity 0)) false (Lexeme.pieces later) =
      .ok read) :
    tokensOf symbols size (previous.map (Token.withArity 0)) false
      (Lexeme.pieces (lexemes ++ later)) = .ok (token.withArity 0 :: read) := by
  cases hcut with
  | bool b =>
      refine tokensOf_pieces_cons (by simp) (by simp) ?_ hread
      rw [tokenOf_name]
      cases b <;> rfl
  | @int n digits h =>
      refine tokensOf_pieces_cons (by simp) (by simp) ?_ hread
      simp only [tokenOf, h]
      rfl
  | @str s body h =>
      refine tokensOf_pieces_cons (by simp) (by simp) ?_ hread
      simp only [tokenOf, h, String.ofList_toList]
      rfl
  | emptyList =>
      have hfunction : (previous.map (Token.withArity 0)).any Token.isFunction = false :=
        (any_isFunction_withArity 0 previous).trans hsuits
      have hread : tokensOf symbols size (some (.list .empty)) false (Lexeme.pieces later) =
        .ok read := hread
      simp only [Lexeme.pieces, List.cons_append, List.nil_append, List.map_cons]
      rw [tokensOf_opening rfl, hfunction]
      show (tokensOf symbols size _ false (Lexeme.pieces later) >>= _) = _
      rw [hread]
      rfl
  | path p =>
      have hread : tokensOf symbols size (some (.path p)) false (Lexeme.pieces later) =
        .ok read := hread
      simp only [Lexeme.pieces, List.cons_append, List.nil_append, List.map_cons]
      rw [tokensOf_arrow rfl, tokensOf_path rfl, String.ofList_toList]
      show (tokensOf symbols size _ false (Lexeme.pieces later) >>= _) = _
      rw [hread]
      rfl
  | sign op fixity =>
      exact tokensOf_pieces_cons op.lexeme_ne.1 op.lexeme_ne.2.1 (tokenOf_sign hsuits _) hread
  | word hw fixity =>
      refine tokensOf_pieces_cons (by simp) (by simp) ?_ hread
      rw [tokenOf_name, classify_word hw hsuits]
      rfl
  | punct p =>
      cases p with
      | opening => exact tokensOf_pieces_opening hlater hsuits hread
      | closing | comma =>
          exact tokensOf_pieces_cons (by simp [Punct.lexeme]) (by simp [Punct.lexeme]) rfl hread
  | function f =>
      refine tokensOf_pieces_cons (by simp) (by simp) ?_ hread
      rw [tokenOf_name, hlater.isCalled_eq, hsuits.2]
      exact congrArg _ (classify_function hsuits.1)
  | ident name =>
      refine tokensOf_pieces_cons (by simp) (by simp) ?_ hread
      rw [tokenOf_name, hlater.isCalled_eq, hsuits.2]
      exact congrArg _ (classify_variable hsuits.1)

/-- Written tokens with the neighbours they need are read as they were written, but for the
numbers of arguments. -/
theorem Cuts.tokensOf_eq {tokens : List Token} {lexemes : List Lexeme} (h : Cuts tokens lexemes)
    {previous : Option Token} (hsuited : Suited symbols previous tokens) (size : Nat) :
    tokensOf symbols size (previous.map (Token.withArity 0)) false (Lexeme.pieces lexemes) =
      .ok (tokens.map (Token.withArity 0)) := by
  induction h generalizing previous with
  | nil => rfl
  | cons hcut hlater ih => exact hcut.tokensOf_eq hlater hsuited.1 (ih hsuited.2)

end Reading

/-! ## Counting the arguments of a tree -/

namespace Tree

mutual

/-- The calls of a tree that starts at a place, with the numbers of their arguments: the calls
among the arguments first. -/
def counts (place : Nat) : Tree → List (Nat × Nat)
  | .operand _ => []
  | .name _ => []
  | .before _ inner => inner.counts (place + 1)
  | .after _ inner => inner.counts place
  | .between _ lhs rhs => lhs.counts place ++ rhs.counts (place + lhs.size + 1)
  | .group inner => inner.counts (place + 1)
  | .call _ args => argumentCounts (place + 2) args ++ [(place, args.length)]

/-- The calls of arguments of which the first starts at a place. -/
def argumentCounts (place : Nat) : List Tree → List (Nat × Nat)
  | [] => []
  | arg :: rest => arg.counts place ++ argumentCounts (place + arg.size + 1) rest

end

end Tree

@[simp] theorem markContent_markContent (groups : List Group) :
    markContent (markContent groups) = markContent groups := by
  cases groups <;> rfl

/-- The token before matters only if it is a function. -/
theorem countArguments_congr {previous other : Option Token}
    (h : previous.any Token.isFunction = other.any Token.isFunction) (place : Nat)
    (groups : List Group) (tokens : List Token) :
    countArguments previous place groups tokens = countArguments other place groups tokens := by
  cases tokens with
  | nil => rfl
  | cons token rest =>
      cases token with
      | punct p =>
          cases p with
          | opening => rw [countArguments, countArguments, h]
          | closing => cases groups <;> rfl
          | comma =>
              cases groups with
              | nil => rfl
              | cons g outer =>
                  obtain ⟨function, commas, hasContent⟩ := g
                  cases function <;> rfl
      | _ => rfl

theorem countArguments_none {token : Token} (h : token.isFunction = false) (place : Nat)
    (groups : List Group) (tokens : List Token) :
    countArguments (some token) place groups tokens =
      countArguments none place groups tokens := by
  apply countArguments_congr
  simpa using h

theorem countArguments_opening (previous : Option Token) (place : Nat) (groups : List Group)
    (rest : List Token) :
    countArguments previous place groups (.punct .opening :: rest) =
      countArguments none (place + 1)
        (⟨if previous.any Token.isFunction then some (place - 1) else none, 0, false⟩ ::
          markContent groups) rest := by
  rw [countArguments, countArguments_none rfl]

theorem countArguments_closing (previous : Option Token) (place : Nat) (g : Group)
    (outer : List Group) (rest : List Token) :
    countArguments previous place (g :: outer) (.punct .closing :: rest) =
      (do
        let later ← countArguments none (place + 1) outer rest
        return (g.function.map fun f => (f, g.arity)).toList ++ later) := by
  rw [countArguments, countArguments_none rfl]

theorem countArguments_comma (previous : Option Token) (place f n : Nat) (c : Bool)
    (outer : List Group) (rest : List Token) :
    countArguments previous place (⟨some f, n, c⟩ :: outer) (.punct .comma :: rest) =
      countArguments none (place + 1) (⟨some f, n + 1, c⟩ :: outer) rest := by
  rw [countArguments, countArguments_none rfl]

theorem countArguments_other (previous : Option Token) (place : Nat) (groups : List Group)
    {token : Token} (hpunct : ∀ p, token ≠ .punct p) (hfunction : token.isFunction = false)
    (rest : List Token) :
    countArguments previous place groups (token :: rest) =
      countArguments none (place + 1) (markContent groups) rest := by
  rw [countArguments, countArguments_none hfunction]
  all_goals exact hpunct _

/-- The pass does not look at numbers of arguments that are already there. -/
theorem countArguments_withArity (n : Nat) (previous : Option Token) (place : Nat)
    (groups : List Group) (tokens : List Token) :
    countArguments previous place groups (tokens.map (Token.withArity n)) =
      countArguments previous place groups tokens := by
  induction tokens generalizing previous place groups with
  | nil => rfl
  | cons token rest ih =>
      cases token with
      | punct p =>
          cases p with
          | opening => exact ih _ _ _
          | closing =>
              cases groups with
              | nil => rfl
              | cons g outer =>
                  rw [List.map_cons, Token.withArity, countArguments_closing,
                    countArguments_closing, ih]
                  exact fun f hf => nomatch hf
          | comma =>
              cases groups with
              | nil => rfl
              | cons g outer =>
                  obtain ⟨function, commas, hasContent⟩ := g
                  cases function with
                  | none => rfl
                  | some f => exact ih _ _ _
      | function f =>
          have hrest : countArguments (some (.function { f with arity := n })) (place + 1)
              (markContent groups) (rest.map (Token.withArity n)) =
            countArguments (some (.function f)) (place + 1) (markContent groups)
              (rest.map (Token.withArity n)) := by
            apply countArguments_congr
            rfl
          exact hrest.trans (ih _ _ _)
      | _ => exact ih _ _ _

namespace Tree

variable {symbols : Symbols}

/-- Each argument after the first adds a comma to the group of the call. -/
theorem countArguments_laterTokens {args : List Tree}
    (hargs : ∀ arg ∈ args, ∀ {place : Nat} {groups : List Group} {rest : List Token}
      {later : List (Nat × Nat)},
      countArguments none (place + arg.size) (markContent groups) rest = .ok later →
        countArguments none place groups (arg.tokens ++ rest) = .ok (arg.counts place ++ later))
    {place f n : Nat} {outer : List Group} {rest : List Token} {later : List (Nat × Nat)}
    (hrest : countArguments none (place + (laterTokens args).length)
      (⟨some f, n + args.length, true⟩ :: outer) rest = .ok later) :
    countArguments none place (⟨some f, n, true⟩ :: outer) (laterTokens args ++ rest) =
      .ok (argumentCounts (place + 1) args ++ later) := by
  induction args generalizing place n with
  | nil => simpa [laterTokens, argumentCounts] using hrest
  | cons arg args ih =>
      obtain ⟨harg, hargs⟩ := List.forall_mem_cons.mp hargs
      have hplace : place + (laterTokens (arg :: args)).length =
          place + 1 + arg.size + (laterTokens args).length := by
        simp only [laterTokens, List.length_cons, List.length_append, size]
        omega
      have hcommas : n + (arg :: args).length = n + 1 + args.length := by
        rw [List.length_cons]
        omega
      rw [hplace, hcommas] at hrest
      rw [laterTokens, List.cons_append, List.append_assoc, countArguments_comma, argumentCounts,
        List.append_assoc]
      exact harg (ih hargs hrest)

/-- The pass over the tokens of a tree finds its calls, and notes in the group around the tree
that there is something in it. -/
theorem Resolved.countArguments_eq {t : Tree} (ht : t.Resolved symbols) {place : Nat}
    {groups : List Group} {rest : List Token} {later : List (Nat × Nat)}
    (hrest : countArguments none (place + t.size) (markContent groups) rest = .ok later) :
    countArguments none place groups (t.tokens ++ rest) = .ok (t.counts place ++ later) := by
  induction ht generalizing place groups rest later with
  | @operand atom hatom =>
      obtain ⟨token, htoken⟩ := atom
      rw [tokens, List.singleton_append, countArguments_other _ _ _ hatom.ne_punct
        hatom.isFunction_eq, counts]
      rwa [size_operand] at hrest
  | @before op inner _ ih =>
      rw [size_before, Nat.add_comm inner.size, ← Nat.add_assoc] at hrest
      rw [tokens, List.cons_append, countArguments_other _ _ _ (by simp) rfl, counts]
      exact ih (by rwa [markContent_markContent])
  | @after op inner _ ih =>
      rw [tokens, List.append_assoc, counts]
      apply ih
      rw [List.singleton_append, countArguments_other _ _ _ (by simp) rfl, markContent_markContent]
      rwa [size_after, ← Nat.add_assoc] at hrest
  | @between op lhs rhs _ _ ihl ihr =>
      rw [tokens, List.append_assoc, counts, List.append_assoc]
      apply ihl
      rw [List.cons_append, countArguments_other _ _ _ (by simp) rfl]
      apply ihr
      have hplace : place + (Tree.between op lhs rhs).size = place + lhs.size + 1 + rhs.size := by
        rw [size_between]
        omega
      rw [hplace] at hrest
      rwa [markContent_markContent, markContent_markContent]
  | @group inner hinner ih =>
      have hplace : place + (Tree.group inner).size = place + 1 + inner.size + 1 := by
        rw [size_group]
        omega
      rw [tokens, List.cons_append, List.append_assoc, countArguments_opening, counts]
      apply ih
      rw [List.singleton_append, markContent, countArguments_closing, ← hplace, hrest]
      rfl
  | @call f args hf _ _ ih =>
      have hplace : place + (Tree.call f args).size =
          place + 2 + (argumentTokens args).length + 1 := by
        rw [size_call]
        omega
      rw [hplace] at hrest
      have hopen : countArguments none place groups ((Tree.call f args).tokens ++ rest) =
          countArguments none (place + 2) (⟨some place, 0, false⟩ :: markContent groups)
            (argumentTokens args ++ .punct .closing :: rest) := by
        rw [tokens, List.cons_append, List.cons_append, List.append_assoc]
        show countArguments (some (.function f)) (place + 1) (markContent groups) _ = _
        rw [countArguments_opening, markContent_markContent]
        rfl
      rw [hopen, counts, List.append_assoc]
      cases args with
      | nil =>
          have hrest : countArguments none (place + 2 + 1) (markContent groups) rest =
            .ok later := hrest
          rw [argumentTokens, List.nil_append, countArguments_closing, hrest]
          rfl
      | cons arg args =>
          obtain ⟨harg, hargs⟩ := List.forall_mem_cons.mp ih
          rw [argumentTokens, List.append_assoc, argumentCounts, List.append_assoc]
          apply harg
          apply countArguments_laterTokens hargs
          have hlength : place + 2 + (argumentTokens (arg :: args)).length =
              place + 2 + arg.size + (laterTokens args).length := by
            rw [argumentTokens, List.length_append, size, Nat.add_assoc (place + 2)]
          rw [countArguments_closing, ← hlength, hrest]
          simp [Group.arity, Except.bind, bind, pure, Except.pure]

end Tree

/-! ## Calls and their numbers of arguments -/

/-- The functions among tokens of which the first stands at a place, with their places and
their numbers of arguments. -/
def callsFrom (place : Nat) : List Token → List (Nat × Nat)
  | [] => []
  | .function f :: rest => (place, f.arity) :: callsFrom (place + 1) rest
  | _ :: rest => callsFrom (place + 1) rest

theorem callsFrom_of_isFunction {token : Token} (h : token.isFunction = false) (place : Nat)
    (rest : List Token) : callsFrom place (token :: rest) = callsFrom (place + 1) rest := by
  cases token <;> first | rfl | cases h

theorem callsFrom_append (place : Nat) (front back : List Token) :
    callsFrom place (front ++ back) =
      callsFrom place front ++ callsFrom (place + front.length) back := by
  induction front generalizing place with
  | nil => rfl
  | cons token rest ih =>
      have hplace : place + (token :: rest).length = place + 1 + rest.length := by
        rw [List.length_cons]
        omega
      rw [hplace]
      cases token with
      | function f => exact congrArg _ (ih (place + 1))
      | _ => exact ih (place + 1)

theorem mem_callsFrom {place : Nat} {tokens : List Token} {x : Nat × Nat} :
    x ∈ callsFrom place tokens ↔
      ∃ i f, tokens[i]? = some (.function f) ∧ x = (place + i, f.arity) := by
  induction tokens generalizing place with
  | nil => simp [callsFrom]
  | cons token rest ih =>
      have hsplit : (∃ i f, (token :: rest)[i]? = some (.function f) ∧ x = (place + i, f.arity)) ↔
          (∃ f, token = .function f ∧ x = (place, f.arity)) ∨
            ∃ i f, rest[i]? = some (.function f) ∧ x = (place + 1 + i, f.arity) := by
        constructor
        · rintro ⟨i, f, hi, rfl⟩
          cases i with
          | zero => exact .inl ⟨f, Option.some.inj hi, rfl⟩
          | succ i => exact .inr ⟨i, f, hi, by rw [Nat.add_assoc, Nat.add_comm 1]⟩
        · rintro (⟨f, rfl, rfl⟩ | ⟨i, f, hi, rfl⟩)
          · exact ⟨0, f, rfl, rfl⟩
          · exact ⟨i + 1, f, hi, by rw [Nat.add_assoc, Nat.add_comm 1]⟩
      rw [hsplit, ← ih]
      cases token with
      | function f => simp [callsFrom]
      | _ => simp [callsFrom]

theorem setArities_withArity {counts : List (Nat × Nat)} {tokens : List Token}
    (h : ∀ x, x ∈ counts ↔ x ∈ callsFrom 0 tokens) :
    setArities counts (tokens.map (Token.withArity 0)) = tokens := by
  apply List.ext_getElem?
  intro i
  rw [setArities, List.getElem?_mapIdx, List.getElem?_map]
  cases htoken : tokens[i]? with
  | none => rfl
  | some token =>
      refine congrArg some ?_
      cases hfind : counts.find? fun count => count.1 = i with
      | none =>
          cases token with
          | function f =>
              have hmem := (h (i, f.arity)).mpr (mem_callsFrom.mpr ⟨i, f, htoken, by simp⟩)
              have hne := List.find?_eq_none.mp hfind _ hmem
              simp at hne
          | _ => rfl
      | some count =>
          have hplace : count.1 = i := by simpa using List.find?_some hfind
          have hmem := (h count).mp (List.mem_of_find?_eq_some hfind)
          obtain ⟨j, f, hj, rfl⟩ := mem_callsFrom.mp hmem
          obtain rfl : j = i := by simpa using hplace
          obtain rfl : token = .function f := Option.some.inj (htoken.symm.trans hj)
          rfl

namespace Tree

variable {symbols : Symbols}

theorem mem_argumentCounts {args : List Tree} {x : Nat × Nat}
    (hargs : ∀ arg ∈ args, ∀ place : Nat,
      x ∈ arg.counts place ↔ x ∈ callsFrom place arg.tokens) (place : Nat) :
    x ∈ argumentCounts (place + 1) args ↔ x ∈ callsFrom place (laterTokens args) := by
  induction args generalizing place with
  | nil => rfl
  | cons arg args ih =>
      obtain ⟨harg, hargs⟩ := List.forall_mem_cons.mp hargs
      rw [argumentCounts, laterTokens, callsFrom_of_isFunction rfl, callsFrom_append,
        List.mem_append, List.mem_append, harg, ih hargs]
      rfl

/-- The calls of a tree are the functions among its tokens, with the numbers of arguments that
stand there. -/
theorem Resolved.mem_counts {t : Tree} (ht : t.Resolved symbols) (place : Nat) (x : Nat × Nat) :
    x ∈ t.counts place ↔ x ∈ callsFrom place t.tokens := by
  induction ht generalizing place with
  | @operand atom hatom =>
      rw [tokens, callsFrom_of_isFunction hatom.isFunction_eq]
      rfl
  | before op _ ih => exact ih (place + 1)
  | after op _ ih => simp [counts, tokens, callsFrom_append, callsFrom, ih]
  | between op _ _ ihl ihr => simp [counts, tokens, callsFrom_append, callsFrom, ihl, ihr, size]
  | group _ ih => simp [counts, tokens, callsFrom_append, callsFrom, ih]
  | @call f args hf harity _ ih =>
      have hargs : x ∈ argumentCounts (place + 2) args ↔
          x ∈ callsFrom (place + 2) (argumentTokens args) := by
        cases args with
        | nil => rfl
        | cons arg args =>
            obtain ⟨harg, hargs⟩ := List.forall_mem_cons.mp ih
            rw [argumentCounts, argumentTokens, callsFrom_append, List.mem_append, List.mem_append,
              harg, mem_argumentCounts hargs]
            rfl
      simp [counts, tokens, callsFrom_append, callsFrom, hargs, harity, or_comm]

/-- A tree can be written down, and however it is written it is read as its own tokens. -/
theorem tokenize_written {t : Tree} (ht : t.Resolved symbols) :
    (∃ cs, Writes t.tokens cs) ∧
      ∀ cs, Writes t.tokens cs → tokenize symbols (String.ofList cs) = .ok t.tokens := by
  obtain ⟨cs, _, hcs⟩ := exists_writes ht.exists_spells
  refine ⟨⟨cs, hcs⟩, ?_⟩
  intro cs hwrites
  obtain ⟨lexemes, hcuts, hlexes⟩ := hwrites.exists_cuts
  obtain ⟨pieces, hpieces, hmap⟩ := lexFrom_of_lexes hlexes (Nat.lt_succ_self _) 0
  have hsuited : Suited symbols none (t.tokens ++ []) := ht.suited rfl follows_nil
  have hcount : countArguments none 0 [] (t.tokens ++ []) = .ok (t.counts 0 ++ []) :=
    ht.countArguments_eq rfl
  rw [List.append_nil] at hsuited
  rw [List.append_nil, List.append_nil, ← countArguments_withArity 0] at hcount
  have hread : tokensOf symbols (byteSize cs) none false pieces =
      .ok (t.tokens.map (Token.withArity 0)) := by
    refine tokensOf_congr ?_ (hcuts.tokensOf_eq hsuited 0)
    rw [hmap, Lexeme.pieces, List.map_map]
    exact (List.map_id lexemes).symm
  unfold tokenize
  dsimp only
  rw [String.toList_ofList, lex, hpieces]
  show (tokensOf symbols (byteSize cs) none false pieces >>= _) = _
  rw [hread]
  show (countArguments none 0 [] (t.tokens.map (Token.withArity 0)) >>= _) = _
  rw [hcount]
  exact congrArg Except.ok (setArities_withArity (ht.mem_counts 0))

/-- A host function, a story function and a list, each with a name. -/
def townSymbols : Symbols :=
  { external := (· = "ask"), story := (· = "tell"), list := (· = "hue") }

/-- The tokens of
`n += - x ++ - tell ( hue ( 2 ) mod 3 , not ( s == "\"" ) , -> inn.bar , ( ) , ask ( ) )`:
a minus of either meaning, calls inside a call, an empty list and an empty list of arguments. -/
def townTokens : List Token :=
  [.ident "n", .operator .addAssign .between, .operator .negate .before, .ident "x",
   .operator .increment .after, .operator .subtract .between, .function ⟨"tell", .story, 5⟩,
   .punct .opening, .function ⟨"hue", .subscript, 1⟩, .punct .opening, .int 2,
   .punct .closing, .operator .modulo .between, .int 3, .punct .comma,
   .operator .not .before, .punct .opening, .ident "s", .operator .equal .between,
   .str "\"", .punct .closing, .punct .comma, .path "inn.bar", .punct .comma,
   .list .empty, .punct .comma, .function ⟨"ask", .external, 0⟩, .punct .opening,
   .punct .closing, .punct .closing]

theorem isName_inn : IsName "inn.bar".toList :=
  @IsName.dotted 'i' ['n', 'n'] ['b', 'a', 'r'] (by decide) (List.all_eq_true.mp rfl)
    (.part (by decide) (List.all_eq_true.mp rfl))

theorem exists_townTree : ∃ tree : Tree, tree.Resolved townSymbols ∧ tree.tokens = townTokens := by
  let tree : Tree :=
    .between ⟨.addAssign, rfl⟩ (.operand ⟨.ident "n", rfl⟩)
      (.between ⟨.subtract, rfl⟩
        (.before ⟨.negate, rfl⟩ (.after ⟨.increment, .inl rfl⟩ (.operand ⟨.ident "x", rfl⟩)))
        (.call ⟨"tell", .story, 5⟩
          [.between ⟨.modulo, rfl⟩ (.call ⟨"hue", .subscript, 1⟩ [.operand ⟨.int 2, rfl⟩])
              (.operand ⟨.int 3, rfl⟩),
            .before ⟨.not, rfl⟩ (.group (.between ⟨.equal, rfl⟩ (.operand ⟨.ident "s", rfl⟩)
              (.operand ⟨.str "\"", rfl⟩))),
            .operand ⟨.path "inn.bar", rfl⟩, .operand ⟨.list .empty, rfl⟩,
            .call ⟨"ask", .external, 0⟩ []]))
  have hn : townSymbols.IsVariable "n" :=
    ⟨.part (by decide) (List.all_eq_true.mp rfl), by decide, by decide, rfl, rfl⟩
  have hx : townSymbols.IsVariable "x" :=
    ⟨.part (by decide) (List.all_eq_true.mp rfl), by decide, by decide, rfl, rfl⟩
  have hs : townSymbols.IsVariable "s" :=
    ⟨.part (by decide) (List.all_eq_true.mp rfl), by decide, by decide, rfl, rfl⟩
  have htell : townSymbols.IsFunction ⟨"tell", .story, 5⟩ :=
    ⟨.part (by decide) (List.all_eq_true.mp rfl), by decide, by decide⟩
  have hhue : townSymbols.IsFunction ⟨"hue", .subscript, 1⟩ :=
    ⟨.part (by decide) (List.all_eq_true.mp rfl), by decide, by decide⟩
  have hask : townSymbols.IsFunction ⟨"ask", .external, 0⟩ :=
    ⟨.part (by decide) (List.all_eq_true.mp rfl), by decide, by decide⟩
  refine ⟨tree, .between _ (.operand (.ident hn)) (.between _
    (.before _ (.after _ (.operand (.ident hx)))) (.call htell rfl ?_)), rfl⟩
  simp only [List.forall_mem_cons]
  refine ⟨.between _ (.call hhue rfl ?_) (.operand (.int (by decide))),
    .before _ (.group (.between _ (.operand (.ident hs)) (.operand (.str _)))),
    .operand (.path isName_inn), .operand .emptyList, .call hask rfl (by simp), by simp⟩
  simpa using Resolved.operand (.int (by decide))

theorem tokenize_written_town :
    tokenize townSymbols
        "\tn\n+=\r- x ++ - tell ( hue ( 2 ) mod 3 , not ( s == \"\\\"\" ) , ->inn.bar , () , ask ( ) )" =
      .ok [.ident "n", .operator .addAssign .between, .operator .negate .before, .ident "x",
        .operator .increment .after, .operator .subtract .between, .function ⟨"tell", .story, 5⟩,
        .punct .opening, .function ⟨"hue", .subscript, 1⟩, .punct .opening, .int 2,
        .punct .closing, .operator .modulo .between, .int 3, .punct .comma,
        .operator .not .before, .punct .opening, .ident "s", .operator .equal .between,
        .str "\"", .punct .closing, .punct .comma, .path "inn.bar", .punct .comma,
        .list .empty, .punct .comma, .function ⟨"ask", .external, 0⟩, .punct .opening,
        .punct .closing, .punct .closing] := by
  have hname : ∀ {c : Char} {cs : List Char}, Lexeme.isWordStart c = true →
      cs.all Lexeme.isWordChar = true → IsName (c :: cs) :=
    fun hc hcs => .part hc (List.all_eq_true.mp hcs)
  have hspaced : ∀ {token : Token} {tokens : List Token} {text rest : List Char},
      token.Spells text → StartsWithGap rest ∧ Writes tokens rest →
        StartsWithGap (' ' :: (text ++ rest)) ∧ Writes (token :: tokens) (' ' :: (text ++ rest)) :=
    Writes.spaced rfl
  have hlast :=
    hspaced (.path isGap_nil isName_inn) <| hspaced (.punct .comma) <|
    hspaced (.emptyList isGap_nil) <| hspaced (.punct .comma) <|
    hspaced (@Token.Spells.function ⟨"ask", .external, 0⟩ (hname rfl rfl)) <|
    hspaced (.punct .opening) <| hspaced (.punct .closing) <| hspaced (.punct .closing) Writes.end
  have hmiddle :=
    hspaced (@Token.Spells.function ⟨"hue", .subscript, 1⟩ (hname rfl rfl)) <|
    hspaced (.punct .opening) <| hspaced (@Token.Spells.int 2 (by decide)) <|
    hspaced (.punct .closing) <| hspaced (@Token.Spells.word .modulo "mod" rfl .between) <|
    hspaced (@Token.Spells.int 3 (by decide)) <| hspaced (.punct .comma) <|
    hspaced (@Token.Spells.word .not "not" rfl .before) <| hspaced (.punct .opening) <|
    hspaced (@Token.Spells.ident "s" (hname rfl rfl)) <|
    hspaced (.sign .equal .between) <| hspaced (@Token.Spells.str "\"" _ (.quote .nil)) <|
    hspaced (.punct .closing) <| hspaced (.punct .comma) hlast
  have hwhole :=
    Writes.spaced (c := '\t') rfl (@Token.Spells.ident "n" (hname rfl rfl)) <|
    Writes.spaced (c := '\n') rfl (.sign .addAssign .between) <|
    Writes.spaced (c := '\r') rfl (.sign .negate .before) <|
    hspaced (@Token.Spells.ident "x" (hname rfl rfl)) <|
    hspaced (.sign .increment .after) <| hspaced (.sign .subtract .between) <|
    hspaced (@Token.Spells.function ⟨"tell", .story, 5⟩ (hname rfl rfl)) <|
    hspaced (.punct .opening) hmiddle
  have hdigits : Nat.toDigits 10 (2 : Int64).toInt.toNat = ['2'] ∧
    Nat.toDigits 10 (3 : Int64).toInt.toNat = ['3'] := by decide
  obtain ⟨tree, hresolved, htokens⟩ := exists_townTree
  have hwrites : Writes townTokens _ := hwhole.2
  rw [← htokens] at hwrites
  have hread := (tokenize_written hresolved).2 _ hwrites
  rw [hdigits.1, hdigits.2, htokens] at hread
  show tokenize townSymbols _ = .ok townTokens
  simpa [Operator.symbol, Punct.text] using hread

end Tree

end Skein
