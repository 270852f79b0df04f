import Mathlib.Data.List.Basic
import ScoringTree.Yaml.Token.Lexer

/-!
# ScoringTree.Proofs.TokenGrowth

What reading on does to the tokens that are there.

Tokens are added at the end, but for those that announce a key, which go where the key was pending.
A statement about tokens that outlasts both changes holds at the end of a run if it holds at any
state on the way.

* `Outlasts`          — such a statement, for keys pending at given positions.
* `Lexer.Spots`       — keys are pending at those positions only.
* `Lexer.Grows`       — every such statement is passed on from one state to another.
* `Lexer.grows_run?`  — from each state to the end of the run.
-/

namespace ScoringTree
namespace Yaml

/-- The statement stays true when tokens are added at the end, and when a key is announced at one of
the positions. -/
structure Outlasts (spot : Nat → Prop) (P : List Token → Prop) : Prop where
  append : ∀ tokens more, P tokens → P (tokens ++ more)
  insert : ∀ front back token, spot front.length → token = .key ∨ token = .blockMappingStart →
    P (front ++ back) → P (front ++ token :: back)

namespace Lexer

/-- The key is pending, in the innermost collection or in an outer one. -/
def Pends (lexer : Lexer) (key : PendingKey) : Prop :=
  lexer.key = some key ∨ some key ∈ lexer.outerKeys

/-- Keys are pending at the given positions only; any position from here on is one of them. -/
structure Spots (spot : Nat → Prop) (lexer : Lexer) : Prop where
  pending : ∀ key, lexer.Pends key → spot key.position
  later : ∀ n, lexer.tokens.length ≤ n → spot n

/-- Between the states tokens are added only at the end and where keys are pending. -/
def Grows (lexer next : Lexer) : Prop :=
  ∀ (spot : Nat → Prop) (P : List Token → Prop), Outlasts spot P → Spots spot lexer →
    P lexer.tokens.reverse → Spots spot next ∧ P next.tokens.reverse

namespace Grows

variable {lexer between next : Lexer}

theorem refl (lexer : Lexer) : Grows lexer lexer := fun _ _ _ hspots hp => ⟨hspots, hp⟩

theorem trans (h : Grows lexer between) (h' : Grows between next) : Grows lexer next := by
  intro spot P hlasts hspots hp
  obtain ⟨hspots', hp'⟩ := h spot P hlasts hspots hp
  exact h' spot P hlasts hspots' hp'

theorem spots (h : Grows lexer next) {spot : Nat → Prop} (hspots : Spots spot lexer) :
    Spots spot next :=
  (h spot (fun _ => True) ⟨fun _ _ _ => trivial, fun _ _ _ _ _ _ => trivial⟩ hspots trivial).1

/-- Tokens are added at the end, and no new key is pending. -/
theorem of_append {more : List Token} (htokens : next.tokens = more ++ lexer.tokens)
    (hpends : ∀ key, next.Pends key → lexer.Pends key) : Grows lexer next := by
  intro spot P hlasts hspots hp
  refine ⟨⟨fun key hkey => hspots.pending key (hpends key hkey), fun n hn => ?_⟩, ?_⟩
  · rw [htokens, List.length_append] at hn
    exact hspots.later n (by omega)
  · rw [htokens, List.reverse_append]
    exact hlasts.append _ _ hp

theorem of_tokens_eq (htokens : next.tokens = lexer.tokens)
    (hpends : ∀ key, next.Pends key → lexer.Pends key) : Grows lexer next :=
  of_append (by rw [htokens, List.nil_append]) hpends

end Grows

/-! ## Tokens and keys -/

section Parts

variable {lexer next : Lexer}

theorem grows_push (lexer : Lexer) (token : Token) : Grows lexer (lexer.push token) :=
  @Grows.of_append lexer (lexer.push token) [token] rfl fun _ h => h

theorem dropKey?_eq (h : lexer.dropKey? = some next) : next = { lexer with key := none } := by
  unfold dropKey? at h
  split at h
  · split at h
    · cases h
    · cases h
      rfl
  · rename_i hnone
    cases h
    rw [← hnone]

theorem grows_dropKey? (h : lexer.dropKey? = some next) : Grows lexer next := by
  cases dropKey?_eq h
  exact .of_tokens_eq rfl fun key hkey => hkey.elim nofun .inr

/-- A key that is pending now was so before, or is pending here. -/
theorem saveKey?_eq (h : lexer.saveKey? = some next) :
    ∃ pending, next = { lexer with key := pending } ∧
      ∀ key, pending = some key → lexer.key = some key ∨ key.position = lexer.tokens.length := by
  unfold saveKey? at h
  split at h
  · obtain ⟨dropped, hdrop, rfl⟩ := Option.map_eq_some_iff.mp h
    cases dropKey?_eq hdrop
    refine ⟨_, rfl, fun key hkey => .inr ?_⟩
    cases hkey
    rfl
  · cases h
    exact ⟨lexer.key, rfl, fun _ => .inl⟩

theorem grows_saveKey? (h : lexer.saveKey? = some next) : Grows lexer next := by
  obtain ⟨pending, rfl, hpending⟩ := saveKey?_eq h
  intro spot P hlasts hspots hp
  refine ⟨⟨?_, hspots.later⟩, hp⟩
  rintro key (hkey | hkey)
  · rcases hpending key hkey with hold | hnew
    · exact hspots.pending key (.inl hold)
    · rw [hnew]
      exact hspots.later _ (Nat.le_refl _)
  · exact hspots.pending key (.inr hkey)

theorem freshKey?_eq_some {pending kept : Option PendingKey}
    (h : lexer.freshKey? pending = some kept) : kept = none ∨ kept = pending := by
  cases pending with
  | none =>
    cases h
    exact .inl rfl
  | some key =>
    simp only [freshKey?] at h
    split at h
    · split at h
      · cases h
      · cases h
        exact .inl rfl
    · cases h
      exact .inr rfl

theorem mem_of_mapM_freshKey? {pendings kept : List (Option PendingKey)} {key : PendingKey}
    (h : pendings.mapM lexer.freshKey? = some kept) (hkey : some key ∈ kept) :
    some key ∈ pendings := by
  induction pendings generalizing kept with
  | nil =>
    cases h
    cases hkey
  | cons pending rest ih =>
    simp only [List.mapM_cons, Option.bind_eq_bind, Option.bind_eq_some_iff, Option.pure_def,
      Option.some.injEq] at h
    obtain ⟨first, hfirst, others, hothers, rfl⟩ := h
    rcases List.mem_cons.mp hkey with hkey | hkey
    · rcases freshKey?_eq_some hfirst with hnone | hsame
      · rw [hnone] at hkey
        cases hkey
      · rw [hkey, hsame]
        exact List.mem_cons_self
    · exact List.mem_cons_of_mem _ (ih hothers hkey)

theorem grows_dropStale? (h : lexer.dropStale? = some next) : Grows lexer next := by
  simp only [dropStale?, Option.bind_eq_bind, Option.bind_eq_some_iff] at h
  obtain ⟨key, hkey, outer, houter, hnext⟩ := h
  cases hnext
  refine .of_tokens_eq rfl fun pending hpends => ?_
  rcases hpends with hpends | hpends
  · rcases freshKey?_eq_some hkey with hnone | hsame
    · rw [hnone] at hpends
      cases hpends
    · exact .inl (hsame.symm.trans hpends)
  · exact .inr (mem_of_mapM_freshKey? houter hpends)

theorem insertAt_length (lexer : Lexer) (token : Token) :
    lexer.insertAt lexer.tokens.length token = lexer.push token := by
  simp [insertAt, push]

/-- A key is announced where it was pending. -/
theorem grows_insertAt {key : PendingKey} (hkey : lexer.Pends key) {token : Token}
    (htoken : token = .key ∨ token = .blockMappingStart) :
    Grows lexer (lexer.insertAt key.position token) := by
  by_cases hposition : key.position ≤ lexer.tokens.length
  · intro spot P hlasts hspots hp
    have hlater : lexer.tokens.length - key.position ≤ lexer.tokens.length := Nat.sub_le _ _
    refine ⟨⟨fun other hother => hspots.pending other hother, fun n hn => ?_⟩, ?_⟩
    · simp only [insertAt, List.length_append, List.length_take, List.length_cons,
        List.length_drop] at hn
      exact hspots.later n (by omega)
    · simp only [insertAt, List.reverse_append, List.reverse_cons, List.append_assoc,
        List.singleton_append]
      apply hlasts.insert _ _ _ _ htoken
      · rw [← List.reverse_append, List.take_append_drop]
        exact hp
      · have hspot := hspots.pending key hkey
        rwa [List.length_reverse, List.length_drop, Nat.sub_sub_self hposition]
  · have hsame : lexer.insertAt key.position token = lexer.push token := by
      simp [insertAt, push, Nat.sub_eq_zero_of_le (Nat.le_of_not_le hposition)]
    rw [hsame]
    exact grows_push lexer token

theorem openBlock_cases (lexer : Lexer) (column position : Nat) (token : Token) :
    lexer.openBlock column position token = lexer ∨
      lexer.openBlock column position token =
        { lexer.insertAt position token with indents := column :: lexer.indents } := by
  unfold openBlock
  dsimp only
  exact (ite_eq_or_eq _ _ _).symm

theorem grows_openBlock {key : PendingKey} (hkey : lexer.Pends key) (column : Nat) :
    Grows lexer (lexer.openBlock column key.position .blockMappingStart) := by
  rcases openBlock_cases lexer column key.position .blockMappingStart with hsame | hopens
  · rw [hsame]
    exact .refl _
  · rw [hopens]
    exact (grows_insertAt hkey (.inr rfl)).trans (.of_tokens_eq rfl fun _ h => h)

theorem openBlockHere_cases (lexer : Lexer) (token : Token) :
    lexer.openBlockHere token = lexer ∨
      lexer.openBlockHere token =
        { lexer.push token with indents := lexer.cursor.column :: lexer.indents } := by
  rw [← insertAt_length]
  exact openBlock_cases lexer _ _ token

theorem grows_openBlockHere (lexer : Lexer) (token : Token) :
    Grows lexer (lexer.openBlockHere token) := by
  rcases openBlockHere_cases lexer token with hsame | hopens
  · rw [hsame]
    exact .refl _
  · rw [hopens]
    exact (grows_push lexer token).trans (.of_tokens_eq rfl fun _ h => h)

theorem grows_closeBlocks (lexer : Lexer) (deeper : Nat → Bool) :
    Grows lexer (lexer.closeBlocks deeper) := by
  unfold closeBlocks
  dsimp only
  split
  · exact .refl _
  · exact .of_append rfl fun _ h => h

end Parts

/-! ## Steps -/

section Steps

variable {lexer next : Lexer}

theorem grows_documentMark? {token : Token} (h : lexer.documentMark? token = some next) :
    Grows lexer next := by
  obtain ⟨dropped, hdrop, rfl⟩ := Option.map_eq_some_iff.mp h
  exact ((grows_closeBlocks _ _).trans (grows_dropKey? hdrop)).trans
    ((grows_push dropped token).trans (.of_tokens_eq rfl fun _ h => h))

theorem grows_directiveLine? (h : lexer.directiveLine? = some next) : Grows lexer next := by
  simp only [directiveLine?, Option.bind_eq_bind, Option.bind_eq_some_iff] at h
  obtain ⟨dropped, hdrop, ⟨token, cursor⟩, -, hnext⟩ := h
  cases hnext
  exact ((grows_closeBlocks _ _).trans (grows_dropKey? hdrop)).trans
    ((grows_push dropped token).trans (.of_tokens_eq rfl fun _ h => h))

theorem tokens_openFlow? {token : Token} (h : lexer.openFlow? token = some next) :
    next.tokens = token :: lexer.tokens := by
  obtain ⟨saved, hsave, rfl⟩ := Option.map_eq_some_iff.mp h
  obtain ⟨pending, rfl, -⟩ := saveKey?_eq hsave
  rfl

theorem tokens_closeFlow? {token : Token} (h : lexer.closeFlow? token = some next) :
    next.tokens = token :: lexer.tokens := by
  obtain ⟨dropped, hdrop, rfl⟩ := Option.map_eq_some_iff.mp h
  cases dropKey?_eq hdrop
  dsimp only
  split <;> rfl

theorem grows_openFlow? {token : Token} (h : lexer.openFlow? token = some next) :
    Grows lexer next := by
  obtain ⟨saved, hsave, rfl⟩ := Option.map_eq_some_iff.mp h
  refine (grows_saveKey? hsave).trans
    ((grows_push saved token).trans (.of_tokens_eq rfl fun key hkey => ?_))
  rcases hkey with hkey | hkey
  · cases hkey
  · rcases List.mem_cons.mp hkey with hkey | hkey
    · exact .inl hkey.symm
    · exact .inr hkey

theorem grows_closeFlow? {token : Token} (h : lexer.closeFlow? token = some next) :
    Grows lexer next := by
  obtain ⟨dropped, hdrop, rfl⟩ := Option.map_eq_some_iff.mp h
  refine (grows_dropKey? hdrop).trans ((grows_push dropped token).trans ?_)
  dsimp only
  split
  · rename_i key outer houter
    refine .of_tokens_eq rfl fun pending hpends => .inr ?_
    change some pending ∈ dropped.outerKeys
    rw [houter]
    rcases hpends with hpends | hpends
    · rw [← hpends]
      exact List.mem_cons_self
    · exact List.mem_cons_of_mem _ hpends
  · exact .of_tokens_eq rfl fun _ h => h

theorem grows_flowEntry? (h : lexer.flowEntry? = some next) : Grows lexer next := by
  obtain ⟨dropped, hdrop, rfl⟩ := Option.map_eq_some_iff.mp h
  exact (grows_dropKey? hdrop).trans
    ((grows_push dropped _).trans (.of_tokens_eq rfl fun _ h => h))

theorem grows_blockEntry? (h : lexer.blockEntry? = some next) : Grows lexer next := by
  unfold blockEntry? at h
  split at h
  · cases h
  · obtain ⟨dropped, hdrop, rfl⟩ := Option.map_eq_some_iff.mp h
    exact ((grows_openBlockHere _ _).trans (grows_dropKey? hdrop)).trans
      ((grows_push dropped _).trans (.of_tokens_eq rfl fun _ h => h))

theorem grows_explicitKey? (h : lexer.explicitKey? = some next) : Grows lexer next := by
  unfold explicitKey? at h
  split at h
  · cases h
  · obtain ⟨dropped, hdrop, rfl⟩ := Option.map_eq_some_iff.mp h
    exact ((grows_openBlockHere _ _).trans (grows_dropKey? hdrop)).trans
      ((grows_push dropped _).trans (.of_tokens_eq rfl fun _ h => h))

theorem grows_value? (h : lexer.value? = some next) : Grows lexer next := by
  unfold value? at h
  split at h
  · rename_i key hkey
    cases h
    have hpends : (lexer.insertAt key.position .key).Pends key := .inl hkey
    exact ((grows_insertAt (.inl hkey) (.inl rfl)).trans (grows_openBlock hpends _)).trans
      ((grows_push _ _).trans (.of_tokens_eq rfl fun _ h => .inr (h.resolve_left nofun)))
  · split at h
    · cases h
    · cases h
      exact (grows_openBlockHere _ _).trans
        ((grows_push _ _).trans (.of_tokens_eq rfl fun _ h => h))

theorem grows_reference? {token : String → Token} (h : lexer.reference? token = some next) :
    Grows lexer next := by
  simp only [reference?, Option.bind_eq_bind, Option.bind_eq_some_iff] at h
  obtain ⟨saved, hsave, ⟨name, cursor⟩, -, hnext⟩ := h
  cases hnext
  exact (grows_saveKey? hsave).trans
    ((grows_push saved _).trans (.of_tokens_eq rfl fun _ h => h))

theorem grows_tagToken? (h : lexer.tagToken? = some next) : Grows lexer next := by
  simp only [tagToken?, Option.bind_eq_bind, Option.bind_eq_some_iff] at h
  obtain ⟨saved, hsave, ⟨token, cursor⟩, -, hnext⟩ := h
  cases hnext
  exact (grows_saveKey? hsave).trans
    ((grows_push saved _).trans (.of_tokens_eq rfl fun _ h => h))

theorem grows_blockScalar? {style : Style} (h : lexer.blockScalar? style = some next) :
    Grows lexer next := by
  simp only [blockScalar?, Option.bind_eq_bind, Option.bind_eq_some_iff] at h
  obtain ⟨dropped, hdrop, ⟨text, cursor⟩, -, hnext⟩ := h
  cases hnext
  exact (grows_dropKey? hdrop).trans
    ((grows_push dropped _).trans (.of_tokens_eq rfl fun _ h => h))

theorem grows_quotedScalar? {read : Cursor → Option (List Char × Cursor)}
    (h : lexer.quotedScalar? read = some next) : Grows lexer next := by
  simp only [quotedScalar?, Option.bind_eq_bind, Option.bind_eq_some_iff] at h
  obtain ⟨saved, hsave, ⟨text, cursor⟩, -, hnext⟩ := h
  cases hnext
  exact (grows_saveKey? hsave).trans
    ((grows_push saved _).trans (.of_tokens_eq rfl fun _ h => h))

theorem grows_plainScalar? (h : lexer.plainScalar? = some next) : Grows lexer next := by
  simp only [plainScalar?, Option.bind_eq_bind, Option.bind_eq_some_iff] at h
  obtain ⟨saved, hsave, plain, -, hnext⟩ := h
  cases hnext
  exact (grows_saveKey? hsave).trans
    ((grows_push saved _).trans (.of_tokens_eq rfl fun _ h => h))

theorem grows_finish? (h : lexer.finish? = some next) : Grows lexer next :=
  (grows_closeBlocks _ _).trans (grows_dropKey? h)

theorem ite_elim {α : Type} {c : Prop} [Decidable c] {a b x : α} {P : Prop}
    (h : (if c then a else b) = x) (hpos : c → a = x → P) (hneg : ¬ c → b = x → P) : P := by
  by_cases hc : c
  · exact hpos hc ((if_pos hc).symm.trans h)
  · exact hneg hc ((if_neg hc).symm.trans h)

theorem grows_token? (h : lexer.token? = some next) : Grows lexer next := by
  unfold token? at h
  dsimp only at h
  split at h
  · exact grows_finish? h
  · refine ite_elim h (fun _ h => grows_directiveLine? h) fun _ h => ?_
    refine ite_elim h (fun _ h => grows_documentMark? h) fun _ h => ?_
    refine ite_elim h (fun _ h => grows_openFlow? h) fun _ h => ?_
    refine ite_elim h (fun _ h => grows_openFlow? h) fun _ h => ?_
    refine ite_elim h (fun _ h => grows_closeFlow? h) fun _ h => ?_
    refine ite_elim h (fun _ h => grows_closeFlow? h) fun _ h => ?_
    refine ite_elim h (fun _ h => grows_flowEntry? h) fun _ h => ?_
    refine ite_elim h (fun _ h => grows_blockEntry? h) fun _ h => ?_
    refine ite_elim h (fun _ h => grows_explicitKey? h) fun _ h => ?_
    refine ite_elim h (fun _ h => grows_value? h) fun _ h => ?_
    refine ite_elim h (fun _ h => grows_reference? h) fun _ h => ?_
    refine ite_elim h (fun _ h => grows_reference? h) fun _ h => ?_
    refine ite_elim h (fun _ h => grows_tagToken? h) fun _ h => ?_
    refine ite_elim h (fun _ h => grows_blockScalar? h) fun _ h => ?_
    refine ite_elim h (fun _ h => grows_blockScalar? h) fun _ h => ?_
    refine ite_elim h (fun _ h => grows_quotedScalar? h) fun _ h => ?_
    refine ite_elim h (fun _ h => grows_quotedScalar? h) fun _ h => ?_
    exact ite_elim h (fun _ h => grows_plainScalar? h) fun _ h => nomatch h

theorem grows_step? (h : lexer.step? = some next) : Grows lexer next := by
  simp only [step?, Option.bind_eq_bind, Option.bind_eq_some_iff] at h
  obtain ⟨fresh, hfresh, htoken⟩ := h
  have hgaps : Grows lexer lexer.skipGaps := .of_tokens_eq rfl fun _ h => h
  exact (hgaps.trans (grows_dropStale? hfresh)).trans
    ((grows_closeBlocks _ _).trans (grows_token? htoken))

/-- A run that ends makes a step, and is over or goes on. -/
theorem run?_succ {fuel : Nat} {final : Lexer} (h : run? (fuel + 1) lexer = some final) :
    ∃ next, lexer.step? = some next ∧
      (next.cursor.rest = [] ∧ next.finish? = some final ∨ run? fuel next = some final) := by
  rw [run?] at h
  split at h
  · cases h
  · rename_i next hstep
    refine ⟨next, hstep, ?_⟩
    split at h
    · rename_i hempty
      exact .inl ⟨List.isEmpty_iff.mp hempty, h⟩
    · exact .inr h

theorem grows_run? {fuel : Nat} (h : run? fuel lexer = some next) : Grows lexer next := by
  induction fuel generalizing lexer with
  | zero => cases h
  | succ fuel ih =>
    obtain ⟨between, hstep, ⟨-, hfinish⟩ | hrun⟩ := run?_succ h
    · exact (grows_step? hstep).trans (grows_finish? hfinish)
    · exact (grows_step? hstep).trans (ih hrun)

end Steps

end Lexer
end Yaml
end ScoringTree
