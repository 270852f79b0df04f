import ScoringTree.Proofs.FloatText
import ScoringTree.Proofs.SourceReading
import ScoringTree.Rule.Condition

/-!
# ScoringTree.Proofs.ConditionReading

The source of a condition can be read in one way only.

The source is an expression of calls. A name ends at the first character that names do not have, a
numeral at the first that numerals do not have, and a string literal at the first quote that no
backslash takes along; field names and texts are quoted, so nothing in them ends the literal they
stand in. Behind an argument stands a comma or the parenthesis of the call.

* `Source.Term`                        — expressions: names, literals and calls.
* `Source.Term.read?`                  — an expression, read from the beginning of a text.
* `Source.Term.read?_chars`            — an expression is read back from its text.
* `Condition.ofSource?`                — the condition whose source a text is.
* `Condition.source_uniquely_readable` — conditions are recovered, so no two share a source.
-/

namespace ScoringTree

namespace Source

/-! ## Expressions of generated source -/

/-- A character of names. -/
def isNameChar (c : Char) : Bool := c.isAlpha || c == '.'

/-- A numeral begins with it. -/
def startsNumber (c : Char) : Bool := c.isDigit || c == '.' || c == '-'

/-- The names that stand in conditions. -/
inductive Symbol where
  | relation (r : Relation)
  | missing
  | present
  | member (negated : Bool)
  | connective (operator : Connective)
  | getter (type : SourceType)
  | record
  | flag (b : Bool)
  | constant (b : Bool)
  deriving DecidableEq

namespace Symbol

def name : Symbol → String
  | .relation r => r.helper
  | .missing => "isMissing"
  | .present => "isNotMissing"
  | .member negated => if negated then "isNotIn" else "isIn"
  | .connective operator => operator.name
  | .getter type => type.getter
  | .record => "requestData"
  | .flag b => flagText b
  | .constant b => if b then "Boolean.TRUE" else "Boolean.FALSE"

def all : List Symbol :=
  [Relation.eq, .ne, .lt, .le, .gt, .ge].map relation ++ [missing, present] ++
    [true, false].map member ++ [Connective.and, .or, .xor, .surrogate].map connective ++
    [SourceType.double, .string, .boolean].map getter ++ [record] ++ [true, false].map flag ++
    [true, false].map constant

/-- The symbol of a name. -/
def named? (cs : List Char) : Option Symbol := all.find? fun symbol => symbol.name.toList == cs

theorem mem_all (symbol : Symbol) : symbol ∈ all := by
  cases symbol with
  | relation r => cases r <;> decide
  | missing => decide
  | present => decide
  | member negated => cases negated <;> decide
  | connective operator => cases operator <;> decide
  | getter type => cases type <;> decide
  | record => decide
  | flag b => cases b <;> decide
  | constant b => cases b <;> decide

theorem named?_name (symbol : Symbol) : named? symbol.name.toList = some symbol := by
  have h : ∀ symbol ∈ all, named? symbol.name.toList = some symbol := by decide +kernel
  exact h symbol (mem_all symbol)

/-- A name begins like no literal, and has nothing but the characters of names. -/
theorem name_chars (symbol : Symbol) :
    ∃ c cs, symbol.name.toList = c :: cs ∧ c ≠ '"' ∧ startsNumber c = false ∧
      ∀ d ∈ c :: cs, isNameChar d = true := by
  have hall : all.all (fun symbol => symbol.name.toList.head?.any (fun c =>
      c != '"' && !startsNumber c) && symbol.name.toList.all isNameChar) = true := by
    decide +kernel
  have h := List.all_eq_true.1 hall symbol (mem_all symbol)
  generalize symbol.name.toList = name at h
  cases name with
  | nil => cases h
  | cons c cs =>
    rw [List.head?_cons, Option.any_some, Bool.and_eq_true, Bool.and_eq_true, bne_iff_ne,
      Bool.not_eq_true', List.all_eq_true] at h
    exact ⟨c, cs, rfl, h.1.1, h.1.2, h.2⟩

end Symbol

/-- An expression of generated source: a name, a literal, or a call with its arguments. -/
inductive Term where
  | word (symbol : Symbol)
  | number (x : Float)
  | text (s : String)
  | call (symbol : Symbol) (arguments : List Term)

/-- Arguments behind the first, each behind a comma, and the parenthesis at the end. -/
def follow : List (List Char) → List Char
  | [] => [')']
  | cs :: more => ',' :: ' ' :: (cs ++ follow more)

/-- Arguments and the parenthesis at the end. -/
def enclose : List (List Char) → List Char
  | [] => [')']
  | cs :: more => cs ++ follow more

namespace Term

mutual

def chars : Term → List Char
  | .word symbol => symbol.name.toList
  | .number x => Number.floatChars .source x
  | .text s => stringLiteralChars s.toList
  | .call symbol arguments => symbol.name.toList ++ '(' :: enclose (charsAll arguments)

def charsAll : List Term → List (List Char)
  | [] => []
  | t :: ts => chars t :: charsAll ts

end

mutual

/-- How deep the calls go, and how many arguments they have. -/
def weight : Term → Nat
  | .call _ arguments => weightAll arguments + 1
  | _ => 0

def weightAll : List Term → Nat
  | [] => 0
  | t :: ts => max (weight t) (weightAll ts) + 1

end

mutual

def numbers : Term → List Float
  | .number x => [x]
  | .call _ arguments => numbersAll arguments
  | _ => []

def numbersAll : List Term → List Float
  | [] => []
  | t :: ts => numbers t ++ numbersAll ts

end

/-! ## Reading -/

/-- The rest of a string literal, behind its opening quote, and what follows it. A backslash takes
the next character along. -/
def literalEnd? : List Char → Option (List Char × List Char)
  | [] => none
  | '"' :: rest => some (['"'], rest)
  | '\\' :: c :: rest => (literalEnd? rest).map fun split => ('\\' :: c :: split.1, split.2)
  | c :: rest => (literalEnd? rest).map fun split => (c :: split.1, split.2)

def readText? (cs : List Char) : Option (Term × List Char) :=
  (literalEnd? cs).bind fun split =>
    (Lexis.readString ('"' :: split.1)).map fun s => (.text s, split.2)

def readNumber? (cs : List Char) : Option (Term × List Char) :=
  (Number.readFloatChars (cs.takeWhile Helper.isDecimalChar)).map fun x =>
    (.number x, cs.dropWhile Helper.isDecimalChar)

/-- A name alone, or a call when a parenthesis opens behind it. -/
def readBehind? (readArguments? : List Char → Option (List Term × List Char)) (symbol : Symbol) :
    List Char → Option (Term × List Char)
  | '(' :: rest => (readArguments? rest).map fun result => (.call symbol result.1, result.2)
  | rest => some (.word symbol, rest)

mutual

def read? : Nat → List Char → Option (Term × List Char)
  | 0, _ => none
  | _ + 1, [] => none
  | fuel + 1, c :: cs =>
    if c = '"' then readText? cs
    else if startsNumber c then readNumber? (c :: cs)
    else
      (Symbol.named? ((c :: cs).takeWhile isNameChar)).bind fun symbol =>
        readBehind? (readArguments? fuel) symbol ((c :: cs).dropWhile isNameChar)

/-- Arguments, behind the opening parenthesis. -/
def readArguments? : Nat → List Char → Option (List Term × List Char)
  | 0, _ => none
  | _ + 1, ')' :: rest => some ([], rest)
  | fuel + 1, cs => (read? fuel cs).bind fun first =>
    (readMore? fuel first.2).map fun more => (first.1 :: more.1, more.2)

/-- Arguments behind the first. -/
def readMore? : Nat → List Char → Option (List Term × List Char)
  | 0, _ => none
  | _ + 1, ')' :: rest => some ([], rest)
  | fuel + 1, ',' :: ' ' :: cs => (read? fuel cs).bind fun first =>
    (readMore? fuel first.2).map fun more => (first.1 :: more.1, more.2)
  | _ + 1, _ => none

end

section Literal

variable {cs rest : List Char} {split : List Char × List Char}

theorem literalEnd?_plain {c : Char} (hquote : c ≠ '"') (hbackslash : c ≠ '\\') (rest : List Char) :
    literalEnd? (c :: rest) =
      (literalEnd? rest).map fun split => (c :: split.1, split.2) := by
  rw [literalEnd?]
  · exact fun h => hquote h
  · exact fun _ _ h => absurd h hbackslash

theorem literalEnd?_append (hcs : ∀ c ∈ cs, c ≠ '"' ∧ c ≠ '\\')
    (h : literalEnd? rest = some split) :
    literalEnd? (cs ++ rest) = some (cs ++ split.1, split.2) := by
  induction cs with
  | nil => exact h
  | cons c cs ih =>
    obtain ⟨hquote, hbackslash⟩ := hcs c List.mem_cons_self
    rw [List.cons_append, literalEnd?_plain hquote hbackslash,
      ih fun d hd => hcs d (List.mem_cons_of_mem c hd)]
    rfl

theorem literalEnd?_backslash (c : Char) (h : literalEnd? rest = some split) :
    literalEnd? ('\\' :: c :: rest) = some ('\\' :: c :: split.1, split.2) := by
  simp only [literalEnd?, h]
  rfl

/-- A control character is escaped by digits. -/
theorem mem_hexPadded {c d : Char} (hc : isControl c = true)
    (hd : d ∈ Text.hexPadded 4 c.toNat) : ∃ k < 16, d = Nat.digitChar k := by
  have hlow : c.toNat < 0x100 := by
    simp only [isControl, Bool.or_eq_true, Bool.and_eq_true, decide_eq_true_eq] at hc
    omega
  rw [Json.hexPadded_four hlow] at hd
  simp only [List.mem_cons, List.not_mem_nil, or_false] at hd
  rcases hd with rfl | rfl | rfl | rfl
  · exact ⟨0, by omega, rfl⟩
  · exact ⟨0, by omega, rfl⟩
  · exact ⟨_, by omega, rfl⟩
  · exact ⟨_, by omega, rfl⟩

theorem digitChar_plain : ∀ k < 16, Nat.digitChar k ≠ '"' ∧ Nat.digitChar k ≠ '\\' := by decide

theorem literalEnd?_escapeChar (c : Char) (h : literalEnd? rest = some split) :
    literalEnd? (escapeChar c ++ rest) = some (escapeChar c ++ split.1, split.2) := by
  by_cases hshort : c ∈ Lexis.shortEscaped
  · obtain ⟨e, hchars, -⟩ := Lexis.escapeChar_short hshort
    rw [hchars]
    exact literalEnd?_backslash e h
  · rw [Lexis.escapeChar_long hshort]
    by_cases hcontrol : isControl c = true
    · rw [if_pos hcontrol]
      have hdigits : ∀ d ∈ Text.hexPadded 4 c.toNat, d ≠ '"' ∧ d ≠ '\\' := by
        intro d hd
        obtain ⟨k, hk, rfl⟩ := mem_hexPadded hcontrol hd
        exact digitChar_plain k hk
      exact literalEnd?_backslash 'u' (literalEnd?_append hdigits h)
    · rw [if_neg hcontrol]
      simp only [Lexis.shortEscaped, List.mem_cons, not_or] at hshort
      have hplain : ∀ d ∈ [c], d ≠ '"' ∧ d ≠ '\\' := by
        intro d hd
        rw [List.mem_singleton.1 hd]
        exact ⟨hshort.1, hshort.2.1⟩
      exact literalEnd?_append hplain h

theorem literalEnd?_literal (cs rest : List Char) :
    literalEnd? (cs.flatMap escapeChar ++ '"' :: rest) =
      some (cs.flatMap escapeChar ++ ['"'], rest) := by
  induction cs with
  | nil => rfl
  | cons c cs ih =>
    rw [List.flatMap_cons, List.append_assoc, literalEnd?_escapeChar c ih, List.append_assoc]

end Literal

/-! ## Reading back -/

/-- Nothing follows, or what stands behind an argument. -/
def Stops (rest : List Char) : Prop := ∀ c ∈ rest.head?, c = ',' ∨ c = ')'

section Read

variable {fuel : Nat} {rest : List Char}

theorem read?_text (fuel : Nat) (s : String) (rest : List Char) :
    read? (fuel + 1) (chars (.text s) ++ rest) = some (.text s, rest) := by
  have hsplit : stringLiteralChars s.toList ++ rest =
      '"' :: (s.toList.flatMap escapeChar ++ '"' :: rest) := by
    simp [stringLiteralChars]
  have hread : Lexis.readString ('"' :: (s.toList.flatMap escapeChar ++ ['"'])) = some s := by
    rw [← stringLiteralChars, Lexis.readString_stringLiteral, String.ofList_toList]
  rw [chars, hsplit, read?, if_pos rfl, readText?, literalEnd?_literal]
  dsimp only [Option.bind_some]
  rw [hread]
  rfl

theorem read?_number {x : Float} (hx : Number.isFinite x = true) (fuel : Nat) (hrest : Stops rest) :
    read? (fuel + 1) (chars (.number x) ++ rest) = some (.number x, rest) := by
  obtain ⟨c, hhead, hc⟩ := Number.head_floatChars hx .source
  have hstop : ∀ c ∈ rest.head?, Helper.isDecimalChar c = false := by
    intro c hc
    rcases hrest c hc with rfl | rfl <;> rfl
  obtain ⟨htake, hdrop⟩ :=
    Text.span_append (Number.isDecimalChar_floatChars hx .source) hstop
  have hread := Number.readFloatChars_floatChars hx .source
  rw [chars]
  generalize Number.floatChars .source x = numeral at *
  cases numeral with
  | nil => cases hhead
  | cons d cs =>
    obtain rfl := Option.some.inj hhead
    have hquote : d ≠ '"' := by
      rintro rfl
      rcases hc with hc | hc | hc <;> cases hc
    have hnumber : startsNumber d = true := by
      simp only [startsNumber, Bool.or_eq_true, beq_iff_eq]
      tauto
    rw [List.cons_append, read?, if_neg hquote, if_pos hnumber, readNumber?, ← List.cons_append,
      htake, hdrop, hread]
    rfl

/-- A name ends where a character follows that stands in none. -/
theorem read?_name (symbol : Symbol) (fuel : Nat)
    (hrest : ∀ c ∈ rest.head?, isNameChar c = false) :
    read? (fuel + 1) (symbol.name.toList ++ rest) =
      readBehind? (readArguments? fuel) symbol rest := by
  have hnamed := symbol.named?_name
  obtain ⟨c, cs, hname, hquote, hnumber, hchars⟩ := symbol.name_chars
  rw [hname] at hnamed ⊢
  obtain ⟨htake, hdrop⟩ := Text.span_append hchars hrest
  rw [List.cons_append, read?, if_neg hquote, if_neg (by simp [hnumber]), ← List.cons_append, htake,
    hdrop, hnamed]
  rfl

theorem read?_word (symbol : Symbol) (fuel : Nat) (hrest : Stops rest) :
    read? (fuel + 1) (chars (.word symbol) ++ rest) = some (.word symbol, rest) := by
  have hname : ∀ c ∈ rest.head?, isNameChar c = false := by
    intro c hc
    rcases hrest c hc with rfl | rfl <;> rfl
  rw [chars, read?_name symbol fuel hname]
  unfold readBehind?
  split
  · rcases hrest '(' rfl with h | h <;> cases h
  · rfl

theorem read?_call (symbol : Symbol) {arguments : List Term} {cs : List Char}
    (h : readArguments? fuel cs = some (arguments, rest)) :
    read? (fuel + 1) (symbol.name.toList ++ '(' :: cs) = some (.call symbol arguments, rest) := by
  have hname : ∀ c ∈ ('(' :: cs).head?, isNameChar c = false := by
    intro c hc
    obtain rfl := Option.some.inj hc
    rfl
  rw [read?_name symbol fuel hname, readBehind?, h]
  rfl

theorem stops_follow (arguments : List (List Char)) (rest : List Char) :
    Stops (follow arguments ++ rest) := by
  intro c hc
  cases arguments with
  | nil => exact .inr (Option.some.inj hc).symm
  | cons cs more => exact .inl (Option.some.inj hc).symm

/-- No term begins with a closing parenthesis. -/
theorem read?_parenthesis (fuel : Nat) (cs : List Char) : read? fuel (')' :: cs) = none := by
  have hnamed : Symbol.named? [] = none := by decide +kernel
  cases fuel with
  | zero => rfl
  | succ fuel =>
    rw [read?, if_neg (by decide), if_neg (by decide), List.takeWhile_cons_of_neg (by decide),
      hnamed]
    rfl

theorem readArguments?_cons {t : Term} {ts : List Term} {cs after : List Char}
    (hfirst : read? fuel cs = some (t, after)) (hmore : readMore? fuel after = some (ts, rest)) :
    readArguments? (fuel + 1) cs = some (t :: ts, rest) := by
  rw [readArguments?]
  · rw [hfirst, Option.bind_some, hmore]
    rfl
  · rintro cs rfl
    rw [read?_parenthesis] at hfirst
    cases hfirst

theorem readMore?_cons {t : Term} {ts : List Term} {cs after : List Char}
    (hfirst : read? fuel cs = some (t, after)) (hmore : readMore? fuel after = some (ts, rest)) :
    readMore? (fuel + 1) (',' :: ' ' :: cs) = some (t :: ts, rest) := by
  rw [readMore?, hfirst, Option.bind_some, hmore]
  rfl

end Read

mutual

/-- A term is read back from its text, with what follows left over. -/
theorem read?_chars : ∀ (t : Term) (fuel : Nat) (rest : List Char),
    (∀ x ∈ numbers t, Number.isFinite x = true) → weight t < fuel → Stops rest →
    read? fuel (chars t ++ rest) = some (t, rest)
  | .word symbol, fuel + 1, rest, _, _, hrest => read?_word symbol fuel hrest
  | .number x, fuel + 1, rest, hfinite, _, hrest =>
    read?_number (hfinite x (List.mem_singleton.2 rfl)) fuel hrest
  | .text s, fuel + 1, rest, _, _, _ => read?_text fuel s rest
  | .call symbol arguments, fuel + 1, rest, hfinite, hfuel, _ => by
    -- the parenthesis at the end is part of the call, so anything may follow it
    rw [weight] at hfuel
    rw [chars, List.append_assoc, List.cons_append]
    exact read?_call symbol (readArguments?_enclose arguments fuel rest hfinite (by omega))

theorem readArguments?_enclose : ∀ (ts : List Term) (fuel : Nat) (rest : List Char),
    (∀ x ∈ numbersAll ts, Number.isFinite x = true) → weightAll ts < fuel →
    readArguments? fuel (enclose (charsAll ts) ++ rest) = some (ts, rest)
  | [], fuel + 1, rest, _, _ => rfl
  | t :: ts, fuel + 1, rest, hfinite, hfuel => by
    rw [weightAll] at hfuel
    rw [numbersAll] at hfinite
    rw [charsAll, enclose, List.append_assoc]
    have hfirst := read?_chars t fuel (follow (charsAll ts) ++ rest)
      (fun x hx => hfinite x (List.mem_append_left _ hx)) (by omega) (stops_follow _ _)
    have hmore := readMore?_follow ts fuel rest
      (fun x hx => hfinite x (List.mem_append_right _ hx)) (by omega)
    exact readArguments?_cons hfirst hmore

theorem readMore?_follow : ∀ (ts : List Term) (fuel : Nat) (rest : List Char),
    (∀ x ∈ numbersAll ts, Number.isFinite x = true) → weightAll ts < fuel →
    readMore? fuel (follow (charsAll ts) ++ rest) = some (ts, rest)
  | [], fuel + 1, rest, _, _ => rfl
  | t :: ts, fuel + 1, rest, hfinite, hfuel => by
    rw [weightAll] at hfuel
    rw [numbersAll] at hfinite
    rw [charsAll, follow, List.cons_append, List.cons_append, List.append_assoc]
    have hfirst := read?_chars t fuel (follow (charsAll ts) ++ rest)
      (fun x hx => hfinite x (List.mem_append_left _ hx)) (by omega) (stops_follow _ _)
    have hmore := readMore?_follow ts fuel rest
      (fun x hx => hfinite x (List.mem_append_right _ hx)) (by omega)
    exact readMore?_cons hfirst hmore

end

theorem length_follow_le (arguments : List (List Char)) :
    (follow arguments).length ≤ (enclose arguments).length + 2 := by
  cases arguments with
  | nil => exact Nat.le_add_right 1 2
  | cons cs more => exact le_rfl

mutual

theorem weight_le : ∀ t : Term, weight t ≤ (chars t).length
  | .word _ => Nat.zero_le _
  | .number _ => Nat.zero_le _
  | .text _ => Nat.zero_le _
  | .call symbol arguments => by
    have hfollow := weightAll_lt arguments
    have henclose := length_follow_le (charsAll arguments)
    obtain ⟨c, cs, hname, -⟩ := symbol.name_chars
    rw [weight, chars, hname, List.length_append, List.length_cons, List.length_cons]
    omega

theorem weightAll_lt : ∀ ts : List Term, weightAll ts < (follow (charsAll ts)).length
  | [] => Nat.zero_lt_one
  | t :: ts => by
    have hfirst := weight_le t
    have hmore := weightAll_lt ts
    rw [weightAll, charsAll, follow, List.length_cons, List.length_cons, List.length_append]
    omega

end

/-- The term of a text. -/
def ofChars? (cs : List Char) : Option Term :=
  (read? (cs.length + 1) cs).bind fun result => if result.2 = [] then some result.1 else none

theorem ofChars?_chars {t : Term} (hfinite : ∀ x ∈ numbers t, Number.isFinite x = true) :
    ofChars? (chars t) = some t := by
  have hstop : Stops [] := by
    intro c hc
    cases hc
  have h := read?_chars t ((chars t).length + 1) [] hfinite (Nat.lt_succ_of_le (weight_le t)) hstop
  rw [List.append_nil] at h
  rw [ofChars?, h]
  rfl

end Term
end Source

namespace Literal

open Source

def term : Literal → Term
  | .number x => .number x
  | .text s => .text s
  | .flag b => .word (.flag b)

def ofTerm? : Term → Option Literal
  | .number x => some (.number x)
  | .text s => some (.text s)
  | .word (.flag b) => some (.flag b)
  | _ => none

def numbers : Literal → List Float
  | .number x => [x]
  | _ => []

theorem ofTerm?_term (literal : Literal) : ofTerm? literal.term = some literal := by
  cases literal <;> rfl

theorem chars_term (literal : Literal) : literal.term.chars = literal.source.toList := by
  cases literal with
  | number x => exact (String.toList_ofList).symm
  | text s => exact (String.toList_ofList).symm
  | flag b => rfl

theorem numbers_term (literal : Literal) : literal.term.numbers = literal.numbers := by
  cases literal <;> rfl

section All

variable (values : List Literal)

theorem charsAll_map_term :
    Term.charsAll (values.map term) = (values.map source).map String.toList := by
  induction values with
  | nil => rfl
  | cons value values ih =>
    rw [List.map_cons, Term.charsAll, chars_term, ih, List.map_cons, List.map_cons]

theorem numbersAll_map_term : Term.numbersAll (values.map term) = values.flatMap numbers := by
  induction values with
  | nil => rfl
  | cons value values ih =>
    rw [List.map_cons, Term.numbersAll, numbers_term, ih, List.flatMap_cons]

theorem mapM_ofTerm?_map_term : (values.map term).mapM ofTerm? = some values := by
  induction values with
  | nil => rfl
  | cons value values ih =>
    rw [List.map_cons, List.mapM_cons, ofTerm?_term, ih]
    rfl

end All

end Literal

namespace Condition

open Source

/-- The record, read at a field. -/
def recordTerm (symbol : Symbol) (field : String) : Term :=
  .call symbol [.word .record, .text field]

mutual

/-- The expression that the source of a condition spells. -/
def term : Condition → Term
  | .compare field relation type literal =>
    .call (.relation relation) [recordTerm (.getter type) field, literal.term]
  | .missing field => recordTerm .missing field
  | .present field => recordTerm .present field
  | .member field type values negated =>
    .call (.member negated) (recordTerm (.getter type) field :: values.map Literal.term)
  | .compound operator operands => .call (.connective operator) (termAll operands)
  | .constant b => .word (.constant b)

def termAll : List Condition → List Term
  | [] => []
  | c :: cs => term c :: termAll cs

end

mutual

/-- The condition that an expression spells. -/
def ofTerm? : Term → Option Condition
  | .call (.relation relation) [.call (.getter type) [.word .record, .text field], literal] =>
    (Literal.ofTerm? literal).map (.compare field relation type)
  | .call .missing [.word .record, .text field] => some (.missing field)
  | .call .present [.word .record, .text field] => some (.present field)
  | .call (.member negated) (.call (.getter type) [.word .record, .text field] :: values) =>
    (values.mapM Literal.ofTerm?).map fun values => .member field type values negated
  | .call (.connective operator) operands => (ofTermAll? operands).map (.compound operator)
  | .word (.constant b) => some (.constant b)
  | _ => none

def ofTermAll? : List Term → Option (List Condition)
  | [] => some []
  | t :: ts => (ofTerm? t).bind fun c => (ofTermAll? ts).map (c :: ·)

end

mutual

/-- The numbers that a condition compares with. -/
def numbers : Condition → List Float
  | .compare _ _ _ literal => literal.numbers
  | .member _ _ values _ => values.flatMap Literal.numbers
  | .compound _ operands => numbersAll operands
  | _ => []

def numbersAll : List Condition → List Float
  | [] => []
  | c :: cs => numbers c ++ numbersAll cs

end

theorem intercalate_follow (first : List Char) (more : List (List Char)) :
    List.intercalate ", ".toList (first :: more) ++ [')'] = first ++ follow more := by
  induction more generalizing first with
  | nil => rw [List.intercalate_singleton, follow]
  | cons second more ih =>
    rw [List.intercalate_cons_cons, List.append_assoc, ih, follow, List.append_assoc]
    rfl

theorem toList_call (helper : String) (arguments : List String) :
    (call helper arguments).toList =
      helper.toList ++ '(' :: enclose (arguments.map String.toList) := by
  rw [call, String.toList_append, String.toList_append, String.toList_append,
    String.toList_intercalate, List.append_assoc, List.append_assoc]
  cases arguments with
  | nil => rfl
  | cons first more =>
    rw [List.map_cons, enclose, ← intercalate_follow]
    rfl

theorem chars_recordTerm (symbol : Symbol) (field : String) :
    (recordTerm symbol field).chars = (recordCall symbol.name field).toList := by
  rw [recordCall, toList_call, recordTerm]
  simp only [Term.chars, Term.charsAll, List.map_cons, List.map_nil, stringLiteral,
    String.toList_ofList]
  rfl

mutual

/-- The source of a condition is the text of its term. -/
theorem chars_term : ∀ c : Condition, c.term.chars = c.source.toList
  | .compare field relation type literal => by
    rw [source, toList_call, term]
    simp only [Term.chars, Term.charsAll, chars_recordTerm, Literal.chars_term]
    rfl
  | .missing field => chars_recordTerm .missing field
  | .present field => chars_recordTerm .present field
  | .member field type values negated => by
    rw [source, toList_call, term]
    simp only [Term.chars, Term.charsAll, chars_recordTerm, Literal.charsAll_map_term]
    rfl
  | .compound operator operands => by
    rw [source, toList_call, term, Term.chars, charsAll_termAll]
    rfl
  | .constant true => rfl
  | .constant false => rfl

theorem charsAll_termAll : ∀ cs : List Condition,
    Term.charsAll (termAll cs) = (sourceAll cs).map String.toList
  | [] => rfl
  | c :: cs => by
    rw [termAll, Term.charsAll, chars_term c, charsAll_termAll cs, sourceAll, List.map_cons]

end

mutual

theorem ofTerm?_term : ∀ c : Condition, ofTerm? c.term = some c
  | .compare field relation type literal => by
    rw [term, recordTerm, ofTerm?, Literal.ofTerm?_term]
    rfl
  | .missing field => rfl
  | .present field => rfl
  | .member field type values negated => by
    rw [term, recordTerm, ofTerm?, Literal.mapM_ofTerm?_map_term]
    rfl
  | .compound operator operands => by
    rw [term, ofTerm?, ofTermAll?_termAll]
    rfl
  | .constant b => rfl

theorem ofTermAll?_termAll : ∀ cs : List Condition, ofTermAll? (termAll cs) = some cs
  | [] => rfl
  | c :: cs => by
    rw [termAll, ofTermAll?, ofTerm?_term c, ofTermAll?_termAll cs]
    rfl

end

mutual

theorem numbers_term : ∀ c : Condition, c.term.numbers = c.numbers
  | .compare field relation type literal => by
    rw [term, Term.numbers, numbers, Term.numbersAll, Term.numbersAll, Literal.numbers_term]
    exact List.append_nil _
  | .missing field => rfl
  | .present field => rfl
  | .member field type values negated => by
    rw [term, Term.numbers, numbers, Term.numbersAll, Literal.numbersAll_map_term]
    rfl
  | .compound operator operands => by
    rw [term, Term.numbers, numbers, numbersAll_termAll]
  | .constant b => rfl

theorem numbersAll_termAll : ∀ cs : List Condition,
    Term.numbersAll (termAll cs) = numbersAll cs
  | [] => rfl
  | c :: cs => by
    rw [termAll, Term.numbersAll, numbers_term c, numbersAll_termAll cs, numbersAll]

end

/-- Every number of the condition is finite. -/
def Finite (c : Condition) : Prop := ∀ x ∈ c.numbers, Number.isFinite x = true

/-- The condition whose source a text is. -/
def ofSource? (s : String) : Option Condition := (Term.ofChars? s.toList).bind ofTerm?

theorem ofSource?_source {c : Condition} (hc : c.Finite) : ofSource? c.source = some c := by
  have hfinite : ∀ x ∈ c.term.numbers, Number.isFinite x = true := by
    rw [numbers_term]
    exact hc
  rw [ofSource?, ← chars_term, Term.ofChars?_chars hfinite, Option.bind_some, ofTerm?_term]

/-- The source of a condition can be read in one way only: it is read as this condition, and
conditions with one source are one condition. -/
theorem source_uniquely_readable (a b : Condition) (ha : a.Finite) (hb : b.Finite) :
    ofSource? a.source = some a ∧ (a.source = b.source ↔ a = b) := by
  refine ⟨ofSource?_source ha, ?_, fun h => congrArg source h⟩
  intro hsource
  have hread := ofSource?_source ha
  rw [hsource, ofSource?_source hb] at hread
  exact (Option.some.inj hread).symm

/-- The name of a field looks like the end of one call and the beginning of the next. -/
def forged : Condition :=
  .compound .and [.missing "a\"), isMissing(requestData, \"b",
    .compare "x" .lt .double (.number (-0.5)), .member "y" .string [.text "),\\", .text ""] true]

/-- The two calls that `forged` imitates. -/
def imitated : Condition :=
  .compound .and [.missing "a", .missing "b",
    .compare "x" .lt .double (.number (-0.5)), .member "y" .string [.text "),\\", .text ""] true]

theorem source_uniquely_readable_forged :
    forged.Finite ∧ imitated.Finite ∧ ofSource? forged.source = some forged ∧
      forged.source ≠ imitated.source := by
  have hnumber : Number.isFinite (-0.5) = true := by decide +kernel
  have hforged : forged.Finite := by
    intro x hx
    rw [show forged.numbers = [-0.5] from rfl, List.mem_singleton] at hx
    rw [hx, hnumber]
  have himitated : imitated.Finite := by
    intro x hx
    rw [show imitated.numbers = [-0.5] from rfl, List.mem_singleton] at hx
    rw [hx, hnumber]
  obtain ⟨hread, hsame⟩ := source_uniquely_readable forged imitated hforged himitated
  refine ⟨hforged, himitated, hread, fun h => ?_⟩
  have h := hsame.1 h
  simp [forged, imitated] at h

end Condition

end ScoringTree
