import Skein.Proofs.Expr.Symbols
import Skein.Proofs.Story.BinaryRoundTrip

set_option autoImplicit false

/-!
# Story: a file that breaks off

A part of a file, from its start, is never read as a story.  That something is missing is noticed
where the bytes end, unless reading has stopped before: the part may hold the whole source of an
expression that is none when it is read with no names known.  This can only be where the story was
made with names known, and `temp` or `return` among them as that of a function.
-/

namespace Skein

/-- Where `temp` and `return` are not taken for functions, known names do not decide whether a
source can be read. -/
theorem Expression.rereads_of_parse {symbols : Symbols} (h : symbols.SpareKeywords)
    {source : String} {e : Expression} (hparse : parse symbols source = .ok e) : e.Rereads := by
  obtain ⟨e', hnone, hsource⟩ := exists_parse_none h hparse
  exact ⟨e', hsource ▸ parse_source hnone⟩

namespace Binary

section Fronts

variable {bytes front : Bytes}

/-- A file that breaks off before reading it is settled. -/
theorem decode_of_short {outcome : Except FormatFault (List Knot)}
    (h : Settles (knotsBy unbounded) bytes outcome) (hfront : front <+: bytes)
    (hshort : front ≠ bytes) : decode front = .error (.format .unexpectedEnd) := by
  rw [decode_eq_unbounded, decodeBy, h.front front hfront hshort]

theorem decode_of_settled {fault : FormatFault}
    (h : Settles (knotsBy unbounded) bytes (.error fault)) (hlong : bytes <+: front) :
    decode front = .error (.format fault) := by
  obtain ⟨rest, rfl⟩ := hlong
  rw [decode_eq_unbounded, decodeBy, h.whole rest]
  rfl

/-- All expressions of the file can be read again, and so nothing but its end stops reading. -/
theorem decode_of_rereads {script : Script} (h : encode script = .ok bytes)
    (hrereads : ∀ e ∈ script.expressions, e.Rereads) (hfront : front <+: bytes)
    (hshort : front ≠ bytes) : decode front = .error (.format .unexpectedEnd) := by
  cases recalls_of_encode h with
  | copy knots hsettles _ _ => exact decode_of_short hsettles hfront hshort
  | unread first _ =>
      obtain ⟨hmem, hunread⟩ := first.not_rereads
      exact absurd (hrereads _ hmem) hunread

/-- The first source that cannot be read again stops reading as soon as it is there. -/
theorem exists_unread {script : Script} (h : encode script = .ok bytes) {e : Expression}
    (he : e ∈ script.expressions) (hunread : ¬e.Rereads) :
    ∃ head e fault, Unread script.expressions bytes head e fault ∧
      Settles (knotsBy unbounded) (head ++ stored e.source)
        (.error (.expression e.source fault)) := by
  cases recalls_of_encode h with
  | copy knots _ hrereads _ => exact absurd (hrereads e he) hunread
  | unread first hsettles => exact ⟨_, _, _, first, hsettles⟩

end Fronts

/-- A file that breaks off is not read as a shorter story.  If its expressions were read with any
names known, as long as `temp` and `return` were not taken for functions, or if at least their
sources can be read with no names known, it fails for no other reason than that it ends.  If there
are sources that cannot, the first of them makes it fail as soon as it stands in the file as a
whole, and up to there it fails because it ends. -/
theorem decode_of_front {script : Script} {bytes : Bytes} (h : encode script = .ok bytes) :
    ((∀ e ∈ script.expressions, ∃ symbols source, symbols.SpareKeywords ∧
        Expression.parse symbols source = .ok e) →
      ∀ front, front <+: bytes → front ≠ bytes →
        decode front = .error (.format .unexpectedEnd)) ∧
    ((∀ e ∈ script.expressions, e.Rereads) →
      ∀ front, front <+: bytes → front ≠ bytes →
        decode front = .error (.format .unexpectedEnd)) ∧
    ((∃ e ∈ script.expressions, ¬e.Rereads) →
      ∃ head e fault, Unread script.expressions bytes head e fault ∧
        ∀ front, front <+: bytes → decode front = .error (.format
          (if front.length < (head ++ stored e.source).length then .unexpectedEnd
            else .expression e.source fault))) := by
  refine ⟨fun hread front => decode_of_rereads h ?_, fun hrereads front => decode_of_rereads h
    hrereads, ?_⟩
  · intro e he
    obtain ⟨symbols, source, hspare, hparse⟩ := hread e he
    exact Expression.rereads_of_parse hspare hparse
  · rintro ⟨e, he, hunread⟩
    obtain ⟨head, first, fault, hfirst, hsettles⟩ := exists_unread h he hunread
    refine ⟨head, first, fault, hfirst, fun front hfront => ?_⟩
    split
    · next hlt =>
      have hwithin := List.prefix_of_prefix_length_le hfront hfirst.held (Nat.le_of_lt hlt)
      refine decode_of_short hsettles hwithin fun heq => ?_
      rw [heq] at hlt
      exact Nat.lt_irrefl _ hlt
    · next hle =>
      have hholds := List.prefix_of_prefix_length_le hfirst.held hfront (Nat.le_of_not_lt hle)
      exact decode_of_settled hsettles hholds

/-- A host function is known. -/
def diceNames : Symbols := { Symbols.none with external := fun name => name = "roll" }

/-- `roll(2)`, as it is read where the function is known. -/
def rolling : Expression :=
  { source := "roll(2)"
    tokens := [.function ⟨"roll", .external, 1⟩, .punct .opening, .int 2, .punct .closing]
    order := [2, 0] }

/-- A story that calls a host function in a choice. -/
def dice : Script where
  knots :=
    [{ name := "table", id := ⟨300⟩, parameters := []
       objects := [.choice ⟨7⟩ [⟨[.text "Roll"], [.logic rolling], true, [rolling], false, false⟩]]
       stitches := [], gathers := [⟨"", ⟨8⟩, 1, 0⟩], isFunction := false }]
  sound := rfl

theorem exists_parse_of_mem_dice {e : Expression} (he : e ∈ dice.expressions) :
    ∃ symbols source, symbols.SpareKeywords ∧ Expression.parse symbols source = .ok e := by
  have heq : e = rolling := by
    simpa using (show e ∈ [rolling, rolling] from he)
  rw [heq]
  refine ⟨diceNames, " roll(2)\n", fun k => ?_, by decide +kernel⟩
  cases k <;> decide

/-- A function has the name `temp`. -/
def hasteNames : Symbols := { Symbols.none with external := fun name => name = "temp" }

/-- `temp(1, 2)`, as it is read where `temp` is a function. -/
def hurrying : Expression :=
  { source := "temp(1, 2)"
    tokens := [.function ⟨"temp", .external, 2⟩, .punct .opening, .int 1, .punct .comma, .int 2,
      .punct .closing]
    order := [2, 4, 0] }

/-- A story that calls `temp` and then ends a line. -/
def haste : Script where
  knots :=
    [{ name := "start", id := ⟨0⟩, parameters := [], objects := [.logic hurrying, .lineBreak]
       stitches := [], gathers := [], isFunction := false }]
  sound := rfl

/-- The file of that story: the source of the call ends one byte before the file does. -/
def hasteFile : Bytes :=
  magic ++ version :: 1 :: 0 :: 0 :: 0 :: stored "start" ++
    [0x80, 0, 0, 0, 0, 0, 0, 0, 2, 0, 0, 0, 11] ++ stored "temp(1, 2)" ++ [1]

theorem encode_haste : encode haste = .ok hasteFile := by decide +kernel

theorem eq_hurrying_of_mem {e : Expression} (he : e ∈ haste.expressions) : e = hurrying :=
  List.mem_singleton.mp (show e ∈ [hurrying] from he)

theorem parse_hurrying :
    Expression.parse Symbols.none hurrying.source = .error (.misplacedComma 3) := by
  decide +kernel

/-- The file of the first story has 79 bytes, and all its parts end too early.  That of the second
has 42 bytes, and its parts end too early up to the 41st, which completes the source that cannot be
read with no names known. -/
theorem decode_of_front_dice_and_haste :
    (∃ bytes, encode dice = .ok bytes ∧ bytes.length = 79 ∧
      ∀ size, size < 79 → decode (bytes.take size) = .error (.format .unexpectedEnd)) ∧
    encode haste = .ok hasteFile ∧ ∀ size, decode (hasteFile.take size) = .error (.format
      (if size < 41 then .unexpectedEnd else .expression "temp(1, 2)" (.misplacedComma 3))) := by
  refine ⟨?_, encode_haste, fun size => ?_⟩
  · have hlength : (encode dice).toOption.map List.length = some 79 := by decide +kernel
    cases hbytes : encode dice with
    | error fault =>
        rw [hbytes] at hlength
        cases hlength
    | ok bytes =>
        rw [hbytes] at hlength
        have hsize : bytes.length = 79 := Option.some.inj hlength
        refine ⟨bytes, rfl, hsize, fun size hlt => ?_⟩
        refine (decode_of_front hbytes).1 (fun _ => exists_parse_of_mem_dice) _
          (List.take_prefix size bytes) fun heq => ?_
        have hcut := congrArg List.length heq
        rw [List.length_take] at hcut
        omega
  · have hunread : ∃ e ∈ haste.expressions, ¬e.Rereads := by
      refine ⟨hurrying, List.mem_cons_self, fun ⟨e, he⟩ => ?_⟩
      rw [parse_hurrying] at he
      cases he
    obtain ⟨head, e, fault, hfirst, hfronts⟩ := (decode_of_front encode_haste).2.2 hunread
    obtain rfl := eq_hurrying_of_mem hfirst.not_rereads.1
    obtain rfl : fault = .misplacedComma 3 :=
      Except.error.inj (hfirst.fails.symm.trans parse_hurrying)
    have hlength : hasteFile.length = 42 := by decide
    -- Two parts tell where the source ends.
    have hcut : (head ++ stored hurrying.source).length = 41 := by
      have hbefore : decode (hasteFile.take 40) = .error (.format .unexpectedEnd) := by
        decide +kernel
      have hbehind : decode (hasteFile.take 41) =
          .error (.format (.expression hurrying.source (.misplacedComma 3))) := by decide +kernel
      rw [hfronts _ (List.take_prefix _ _), List.length_take, hlength] at hbefore hbehind
      split at hbefore
      · split at hbehind
        · cases hbehind
        · omega
      · cases hbefore
    rw [hfronts _ (List.take_prefix _ _), hcut, List.length_take, hlength]
    have hsize : min size 42 < 41 ↔ size < 41 := by omega
    simp only [hsize]
    rfl

/-- The expression of the story was read from its source, and without its last byte the file of the
story fails for another reason than that it ends. -/
theorem decode_haste_front :
    (∀ e ∈ haste.expressions, ∃ symbols source, Expression.parse symbols source = .ok e) ∧
      encode haste = .ok hasteFile ∧ hasteFile.take 41 <+: hasteFile ∧
      hasteFile.take 41 ≠ hasteFile ∧
      decode (hasteFile.take 41) =
        .error (.format (.expression "temp(1, 2)" (.misplacedComma 3))) ∧
      decode (hasteFile.take 41) ≠ .error (.format .unexpectedEnd) := by
  refine ⟨fun e he => ?_, encode_haste, List.take_prefix _ _, by decide, by decide +kernel,
    by decide +kernel⟩
  rw [eq_hurrying_of_mem he]
  exact ⟨hasteNames, "temp(1, 2)", by decide +kernel⟩

end Binary

end Skein
