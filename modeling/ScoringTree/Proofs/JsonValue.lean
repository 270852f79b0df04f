import Mathlib.Data.List.Basic
import ScoringTree.Proofs.JsonText

/-!
# ScoringTree.Proofs.JsonValue

The values that reading gives.

* `Datum.numbers`   — the numbers in a datum.
* `Json.read_fits`  — every number that is read is a float or has at most 64 bits.
* `Json.Settled`    — a value that any reading as a value gives back.
* `Datum.settled_of_toJson?`
                    — a datum taken as a value gives a settled one.
-/

namespace ScoringTree

namespace Datum

mutual

/-- The numbers in a datum, from left to right. -/
def numbers : Datum → List Quantity
  | .number n => [n]
  | .seq items => itemsNumbers items
  | .map entries => entriesNumbers entries
  | _ => []

def itemsNumbers : List Datum → List Quantity
  | [] => []
  | d :: ds => numbers d ++ itemsNumbers ds

def entriesNumbers : List (Datum × Datum) → List Quantity
  | [] => []
  | (k, v) :: rest => numbers k ++ numbers v ++ entriesNumbers rest

end

/-- All integers in the datum have at most 64 bits. -/
def Fits (d : Datum) : Prop := ∀ q ∈ d.numbers, q.Fits

mutual

@[simp] theorem readable_ofJson : ∀ v : Json, (ofJson v).readable = true
  | .null => rfl
  | .bool _ => rfl
  | .number _ => rfl
  | .string _ => rfl
  | .array items => itemsReadable_ofItems items
  | .object members => entriesReadable_ofMembers members

theorem itemsReadable_ofItems : ∀ items : List Json, itemsReadable (ofItems items) = true
  | [] => rfl
  | v :: vs => by simp [ofItems, itemsReadable, readable_ofJson v, itemsReadable_ofItems vs]

theorem entriesReadable_ofMembers :
    ∀ members : List (String × Json), entriesReadable (ofMembers members) = true
  | [] => rfl
  | (k, v) :: rest => by
    simp [ofMembers, entriesReadable, readable, readable_ofJson v, entriesReadable_ofMembers rest]

end

end Datum

/-! ## Numbers that are read -/

namespace Json

theorem Numeral.accumulate_le {limit acc : Nat} (h : acc ≤ limit) (cs : List Char) :
    (Numeral.accumulate limit acc cs).1 ≤ limit := by
  induction cs generalizing acc with
  | nil => exact h
  | cons c cs ih =>
    rw [Numeral.accumulate]
    split
    · exact h
    · rename_i hnext
      exact ih (Nat.not_lt.mp hnext)

theorem Numeral.integerValue_fits {n : Nat} (h : n ≤ Numeral.wordLimit) (negative : Bool) :
    (Numeral.integerValue negative n).Fits := by
  have hn : n ≤ 2 ^ 64 - 1 := h
  rw [Numeral.integerValue]
  split
  · simp only [Quantity.Fits]
    omega
  · split
    · trivial
    · rename_i hbound
      have hn' : ¬(n = 0 ∨ 2 ^ 63 < n) := hbound
      simp only [Quantity.Fits]
      omega

theorem Numeral.value?_fits {numeral : Numeral} {q : Quantity} (h : numeral.value? = some q) :
    q.Fits := by
  have hword : (Numeral.accumulate Numeral.wordLimit 0 numeral.whole).1 ≤ Numeral.wordLimit :=
    Numeral.accumulate_le (Nat.zero_le _) _
  simp only [Numeral.value?] at h
  split at h
  · split at h
    · obtain rfl := Option.some.inj h
      exact Numeral.integerValue_fits hword _
    · obtain ⟨x, -, rfl⟩ := Option.map_eq_some_iff.mp h
      trivial
  · split at h
    · split at h
      · simp at h
      · obtain rfl := Option.some.inj h
        trivial
    · obtain ⟨x, -, rfl⟩ := Option.map_eq_some_iff.mp h
      trivial

theorem numberDatum_fits (numeral : Numeral) : (numberDatum numeral).Fits := by
  rw [numberDatum]
  split
  · rename_i n hn
    simpa [Datum.Fits, Datum.numbers] using Numeral.value?_fits hn
  · simp [Datum.Fits, Datum.numbers]

theorem numbers_stringDatum (pieces : List Piece) : (stringDatum pieces).numbers = [] := by
  rw [stringDatum]
  split <;> rfl

theorem nested_fits {depth : Nat} {d : Datum} (h : d.Fits) : (nested depth d).Fits := by
  rw [nested]
  split
  · simp [Datum.Fits, Datum.numbers]
  · exact h

/-- With this much fuel, the three readers give only numbers that fit. -/
structure ReadersFit (fuel : Nat) : Prop where
  value {depth : Nat} {cs : List Char} {r : Datum × List Char} :
    readValue fuel depth cs = some r → r.1.Fits
  items {depth : Nat} {cs : List Char} {r : List Datum × List Char} :
    readItems fuel depth cs = some r → ∀ q ∈ Datum.itemsNumbers r.1, q.Fits
  members {depth : Nat} {cs : List Char} {r : List (Datum × Datum) × List Char} :
    readMembers fuel depth cs = some r → ∀ q ∈ Datum.entriesNumbers r.1, q.Fits

namespace ReadersFit

variable {fuel : Nat}

theorem value_succ (h : ReadersFit fuel) {depth : Nat} {cs : List Char} {r : Datum × List Char}
    (hr : readValue (fuel + 1) depth cs = some r) : r.1.Fits := by
  rw [readValue] at hr
  split at hr
  · obtain rfl := Option.some.inj hr
    simp [Datum.Fits, Datum.numbers]
  · obtain rfl := Option.some.inj hr
    simp [Datum.Fits, Datum.numbers]
  · obtain rfl := Option.some.inj hr
    simp [Datum.Fits, Datum.numbers]
  · obtain ⟨string, -, rfl⟩ := Option.map_eq_some_iff.mp hr
    simp [Datum.Fits, numbers_stringDatum]
  · split at hr
    · obtain rfl := Option.some.inj hr
      exact nested_fits (by simp [Datum.Fits, Datum.numbers, Datum.itemsNumbers])
    · obtain ⟨items, hitems, rfl⟩ := Option.map_eq_some_iff.mp hr
      exact nested_fits (h.items hitems)
  · split at hr
    · obtain rfl := Option.some.inj hr
      exact nested_fits (by simp [Datum.Fits, Datum.numbers, Datum.entriesNumbers])
    · obtain ⟨members, hmembers, rfl⟩ := Option.map_eq_some_iff.mp hr
      exact nested_fits (h.members hmembers)
  · obtain ⟨numeral, -, rfl⟩ := Option.map_eq_some_iff.mp hr
    exact numberDatum_fits numeral.1

theorem items_succ (h : ReadersFit fuel) {depth : Nat} {cs : List Char}
    {r : List Datum × List Char} (hr : readItems (fuel + 1) depth cs = some r) :
    ∀ q ∈ Datum.itemsNumbers r.1, q.Fits := by
  rw [readItems] at hr
  split at hr
  · simp at hr
  · rename_i item rest hitem
    have hfirst := h.value hitem
    split at hr
    · obtain ⟨items, hitems, rfl⟩ := Option.map_eq_some_iff.mp hr
      exact List.forall_mem_append.mpr ⟨hfirst, h.items hitems⟩
    · obtain rfl := Option.some.inj hr
      simpa [Datum.itemsNumbers, Datum.Fits] using hfirst
    · simp at hr

theorem members_succ (h : ReadersFit fuel) {depth : Nat} {cs : List Char}
    {r : List (Datum × Datum) × List Char} (hr : readMembers (fuel + 1) depth cs = some r) :
    ∀ q ∈ Datum.entriesNumbers r.1, q.Fits := by
  rw [readMembers] at hr
  split at hr
  · split at hr
    · simp at hr
    · split at hr
      · split at hr
        · simp at hr
        · rename_i value rest hvalue
          have hfirst := h.value hvalue
          split at hr
          · obtain ⟨members, hmembers, rfl⟩ := Option.map_eq_some_iff.mp hr
            rw [Datum.entriesNumbers, numbers_stringDatum, List.nil_append]
            exact List.forall_mem_append.mpr ⟨hfirst, h.members hmembers⟩
          · obtain rfl := Option.some.inj hr
            simpa [Datum.entriesNumbers, numbers_stringDatum, Datum.Fits] using hfirst
          · simp at hr
      · simp at hr
  · simp at hr

theorem all (fuel : Nat) : ReadersFit fuel := by
  induction fuel with
  | zero => constructor <;> intro depth cs r hr <;> simp [readValue, readItems, readMembers] at hr
  | succ fuel ih => exact ⟨ih.value_succ, ih.items_succ, ih.members_succ⟩

end ReadersFit

/-- Every number in what a text stands for is a float or an integer of at most 64 bits. -/
theorem read_fits {text : String} {d : Datum} (h : read text = some d) : d.Fits := by
  rw [read, readChars] at h
  split at h
  · rename_i value rest hread
    split at h
    · obtain rfl := Option.some.inj h
      exact (ReadersFit.all _).value hread
    · simp at h
  · simp at h

end Json

/-! ## Data taken as values -/

namespace Json

/-- Every key comes after those in front of it. -/
def Sorted (members : List (String × Json)) : Prop :=
  members.Pairwise fun a b => compare a.1 b.1 = .lt

theorem mem_insert {key : String} {value : Json} {members : List (String × Json)}
    {member : String × Json} (h : member ∈ insert key value members) :
    member = (key, value) ∨ member ∈ members := by
  induction members with
  | nil => simpa [insert] using h
  | cons first rest ih =>
    obtain ⟨k, v⟩ := first
    rw [insert] at h
    split at h
    · simpa using h
    · rcases List.mem_cons.mp h with h | h
      · exact .inl h
      · exact .inr (List.mem_cons_of_mem _ h)
    · rcases List.mem_cons.mp h with rfl | h
      · exact .inr List.mem_cons_self
      · exact (ih h).imp_right (List.mem_cons_of_mem _)

theorem Sorted.insert {members : List (String × Json)} (h : Sorted members) (key : String)
    (value : Json) : Sorted (insert key value members) := by
  induction members with
  | nil => simp [Json.insert, Sorted]
  | cons first rest ih =>
    obtain ⟨k, v⟩ := first
    obtain ⟨hfirst, hrest⟩ := List.pairwise_cons.mp h
    rw [Json.insert]
    split
    · rename_i hlt
      refine List.pairwise_cons.mpr ⟨?_, h⟩
      intro member hmember
      rcases List.mem_cons.mp hmember with rfl | hmember
      · exact hlt
      · exact Std.TransCmp.lt_trans hlt (hfirst member hmember)
    · rename_i heq
      obtain rfl : key = k := Std.LawfulEqCmp.eq_of_compare heq
      exact List.pairwise_cons.mpr ⟨hfirst, hrest⟩
    · rename_i hgt
      refine List.pairwise_cons.mpr ⟨?_, ih hrest⟩
      intro member hmember
      rcases mem_insert hmember with rfl | hmember
      · exact Std.OrientedCmp.lt_of_gt hgt
      · exact hfirst member hmember

/-- A key that comes after all others is put behind them. -/
theorem insert_last {key : String} {members : List (String × Json)}
    (h : ∀ member ∈ members, compare member.1 key = .lt) (value : Json) :
    insert key value members = members ++ [(key, value)] := by
  induction members with
  | nil => rfl
  | cons first rest ih =>
    obtain ⟨k, v⟩ := first
    have hk : compare key k = .gt := Std.OrientedCmp.gt_of_lt (h (k, v) List.mem_cons_self)
    rw [insert, hk, ih fun member hmember => h member (List.mem_cons_of_mem _ hmember)]
    rfl

theorem mem_membersNumbers {q : Quantity} {members : List (String × Json)} :
    q ∈ membersNumbers members ↔ ∃ member ∈ members, q ∈ member.2.numbers := by
  induction members with
  | nil => simp [membersNumbers]
  | cons first rest ih => simp [membersNumbers, ih]

theorem mem_itemsNumbers {q : Quantity} {items : List Json} :
    q ∈ itemsNumbers items ↔ ∃ item ∈ items, q ∈ item.numbers := by
  induction items with
  | nil => simp [itemsNumbers]
  | cons first rest ih => simp [itemsNumbers, ih]

/-- All integers in the value have at most 64 bits. -/
def Fits (v : Json) : Prop := ∀ q ∈ v.numbers, q.Fits

/-- A value that fits and is taken as itself. -/
structure Settled (v : Json) : Prop where
  fits : v.Fits
  toJson? : (Datum.ofJson v).toJson? = some v

end Json

namespace Datum

open Json (Settled Sorted)

/-- Sorted members with settled values are put in one after the other as they stand. -/
theorem entriesToJson?_ofMembers {members : List (String × Json)} (front : List (String × Json))
    (hsorted : Sorted (front ++ members)) (hsettled : ∀ member ∈ members, member.2.Settled) :
    entriesToJson? front (ofMembers members) = some (front ++ members) := by
  induction members generalizing front with
  | nil => simp [ofMembers, entriesToJson?]
  | cons first rest ih =>
    obtain ⟨key, value⟩ := first
    have hvalue := (hsettled _ List.mem_cons_self).toJson?
    have hlast : ∀ member ∈ front, compare member.1 key = .lt := fun member hmember =>
      (List.pairwise_append.mp hsorted).2.2 member hmember (key, value) List.mem_cons_self
    have hrest := ih (front ++ [(key, value)]) (by simpa using hsorted)
      fun member hmember => hsettled member (List.mem_cons_of_mem _ hmember)
    rw [List.append_assoc, List.singleton_append] at hrest
    simp only [ofMembers, entriesToJson?, hvalue, Json.insert_last hlast, hrest]

mutual

/-- A value that a datum was taken as is taken as itself from then on. -/
theorem settled_of_toJson? : ∀ (d : Datum) (v : Json), d.Fits → d.toJson? = some v → v.Settled
  | .null, _, _, h => by cases h; exact ⟨by simp [Json.Fits, Json.numbers], rfl⟩
  | .bool _, _, _, h => by cases h; exact ⟨by simp [Json.Fits, Json.numbers], rfl⟩
  | .number (.integer _), _, hd, h => by cases h; exact ⟨hd, rfl⟩
  | .number (.float x), v, hd, h => by
    rw [toJson?] at h
    obtain rfl := Option.some.inj h
    split
    · rename_i hfinite
      exact ⟨hd, by simp [ofJson, toJson?, hfinite]⟩
    · exact ⟨by simp [Json.Fits, Json.numbers], rfl⟩
  | .text _, _, _, h => by cases h; exact ⟨by simp [Json.Fits, Json.numbers], rfl⟩
  | .seq items, v, hd, h => by
    obtain ⟨values, hvalues, rfl⟩ := Option.map_eq_some_iff.mp h
    obtain ⟨hfits, hsettled⟩ := settled_of_itemsToJson? items values hd hvalues
    exact ⟨hfits, by simp [ofJson, toJson?, hsettled]⟩
  | .map entries, v, hd, h => by
    obtain ⟨members, hmembers, rfl⟩ := Option.map_eq_some_iff.mp h
    obtain ⟨hsorted, hsettled⟩ := settled_of_entriesToJson? entries [] members hd
      (by simp [Sorted]) (by simp) hmembers
    refine ⟨?_, by simp [ofJson, toJson?, entriesToJson?_ofMembers [] hsorted hsettled]⟩
    intro q hq
    obtain ⟨member, hmember, hq⟩ := Json.mem_membersNumbers.mp hq
    exact (hsettled member hmember).fits q hq
  | .unreadable, _, _, h => by simp [toJson?] at h

theorem settled_of_itemsToJson? : ∀ (items : List Datum) (values : List Json),
    (∀ q ∈ itemsNumbers items, q.Fits) → itemsToJson? items = some values →
    (∀ q ∈ Json.itemsNumbers values, q.Fits) ∧ itemsToJson? (ofItems values) = some values
  | [], _, hd, h => by cases h; exact ⟨hd, rfl⟩
  | d :: ds, values, hd, h => by
    rw [itemsToJson?] at h
    split at h
    · rename_i v vs hv hvs
      obtain rfl := Option.some.inj h
      obtain ⟨hfirst, hrest⟩ := List.forall_mem_append.mp hd
      have hsettled := settled_of_toJson? d v hfirst hv
      obtain ⟨hfits, hitems⟩ := settled_of_itemsToJson? ds vs hrest hvs
      refine ⟨List.forall_mem_append.mpr ⟨hsettled.fits, hfits⟩, ?_⟩
      rw [ofItems, itemsToJson?, hsettled.toJson?, hitems]
    · simp at h

theorem settled_of_entriesToJson? :
    ∀ (entries : List (Datum × Datum)) (front members : List (String × Json)),
      (∀ q ∈ entriesNumbers entries, q.Fits) → Sorted front →
      (∀ member ∈ front, member.2.Settled) → entriesToJson? front entries = some members →
      Sorted members ∧ ∀ member ∈ members, member.2.Settled
  | [], front, members, _, hsorted, hsettled, h => by
    obtain rfl := Option.some.inj h
    exact ⟨hsorted, hsettled⟩
  | (.text key, d) :: rest, front, members, hd, hsorted, hsettled, h => by
    rw [entriesToJson?] at h
    split at h
    · rename_i v hv
      obtain ⟨hfirst, hrest⟩ := List.forall_mem_append.mp hd
      refine settled_of_entriesToJson? rest _ members hrest (hsorted.insert key v) ?_ h
      intro member hmember
      rcases Json.mem_insert hmember with rfl | hmember
      · exact settled_of_toJson? d v hfirst hv
      · exact hsettled member hmember
    · simp at h
  | (.null, _) :: _, _, _, _, _, _, h => by simp [entriesToJson?] at h
  | (.bool _, _) :: _, _, _, _, _, _, h => by simp [entriesToJson?] at h
  | (.number _, _) :: _, _, _, _, _, _, h => by simp [entriesToJson?] at h
  | (.seq _, _) :: _, _, _, _, _, _, h => by simp [entriesToJson?] at h
  | (.map _, _) :: _, _, _, _, _, _, h => by simp [entriesToJson?] at h
  | (.unreadable, _) :: _, _, _, _, _, _, h => by simp [entriesToJson?] at h

end

end Datum

end ScoringTree
