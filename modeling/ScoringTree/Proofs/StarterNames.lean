import ScoringTree.Proofs.ScalarWidth
import ScoringTree.Proofs.StarterConfig
import ScoringTree.Proofs.TokenGrowth

/-!
# ScoringTree.Proofs.StarterNames

Which names of projects are read back.

A name that is not plain changes how the lines around it are read, and still something may be read
as the name. Here the tokens behind the key of the name are followed from its line on: a property
leaves the value awaited, a scalar is shorter than the name unless the whole line is that name, and
any other token takes the place of the value for good.

* `Names`             — behind its key, tokens begin with a scalar of that text.
* `names_of_read`     — a name that is read back is empty or such a text.
* `refutes`           — tokens that settle that the name is another one, whatever follows.
* `Awaits`            — the states in which the value is still to come.
* `Outcome`           — what the next token can be in such a state (`outcome_of_token?`).
* `suffix_of_names`   — so a name that is read is a plain scalar at the end of its line.
* `ofText_config_iff` — the names that are read back are the plain ones.
-/

namespace ScoringTree

open Yaml Yaml.Lexer

namespace Starter

/-! ## The value of the first entry -/

/-- An anchor or a tag. -/
def isProperty : Token → Bool
  | .anchor _ => true
  | .tag _ _ => true
  | _ => false

/-- Behind properties, the tokens begin with a scalar of that text, and the scalar is followed by
another entry or by the end of its block. -/
def Names (tokens : List Token) (text : String) : Prop :=
  ∃ style rest, tokens.dropWhile isProperty = .scalar style text :: rest ∧
    (rest.head? = some .key ∨ rest.head? = some .blockEnd)

theorem dropWhile_properties {properties : List Token}
    (h : ∀ token ∈ properties, isProperty token = true) (rest : List Token) :
    (properties ++ rest).dropWhile isProperty = rest.dropWhile isProperty :=
  List.dropWhile_append_of_pos h

theorem properties?_split {handles : Handles} {draft next : Draft} {properties : Properties}
    (h : Draft.properties? handles draft = some (properties, next)) :
    ∃ front, (∀ token ∈ front, isProperty token = true) ∧
      draft.tokens = front ++ next.tokens := by
  unfold Draft.properties? at h
  split at h
  · rename_i name handle suffix tokens htokens
    obtain ⟨tag, -, hnext⟩ := Option.bind_eq_some_iff.mp h
    cases hnext
    exact ⟨[.anchor name, .tag handle suffix], by simp [isProperty], htokens⟩
  · rename_i handle suffix name tokens htokens
    obtain ⟨tag, -, hnext⟩ := Option.bind_eq_some_iff.mp h
    cases hnext
    exact ⟨[.tag handle suffix, .anchor name], by simp [isProperty], htokens⟩
  · rename_i name tokens _ htokens
    cases h
    exact ⟨[.anchor name], by simp [isProperty], htokens⟩
  · rename_i handle suffix tokens _ htokens
    obtain ⟨tag, -, hnext⟩ := Option.bind_eq_some_iff.mp h
    cases hnext
    exact ⟨[.tag handle suffix], by simp [isProperty], htokens⟩
  · cases h
    exact ⟨[], by simp, rfl⟩

/-- What a node can be, by the tokens it is read from. -/
inductive ReadsAs (draft next : Draft) : Yaml.Node → Prop where
  | reference {name : String} {number : Nat} : draft.anchors.lookup name = some number →
      ReadsAs draft next (.alias number)
  | empty (properties : Properties) : ReadsAs draft next (.scalar properties .plain "")
  | scalar {front : List Token} (properties : Properties) {style : Style} {text : String} :
      (∀ token ∈ front, isProperty token = true) →
      draft.tokens = front ++ .scalar style text :: next.tokens →
      ReadsAs draft next (.scalar properties style text)
  | sequence (properties : Properties) (items : List Yaml.Node) :
      ReadsAs draft next (.sequence properties items)
  | mapping (properties : Properties) (entries : List (Yaml.Node × Yaml.Node)) :
      ReadsAs draft next (.mapping properties entries)

theorem readsAs_of_node? {handles : Handles} {fuel : Nat} {inBlock indentless : Bool}
    {draft next : Draft} {node : Yaml.Node}
    (h : Draft.node? handles fuel inBlock indentless draft = some (node, next)) :
    ReadsAs draft next node := by
  cases fuel with
  | zero => cases h
  | succ fuel =>
    rw [Draft.node?] at h
    split at h
    · obtain ⟨number, hnumber, hnext⟩ := Option.map_eq_some_iff.mp h
      cases hnext
      exact .reference hnumber
    · split at h
      · cases h
      · rename_i properties behind hproperties
        obtain ⟨front, hfront, htokens⟩ := properties?_split hproperties
        have hleft : (if properties = .none then none else
            some (Yaml.Node.scalar properties .plain "", behind)) = some (node, next) →
              ReadsAs draft next node := by
          intro hleft
          split at hleft
          · cases hleft
          · cases hleft
            exact .empty properties
        dsimp only at h
        split at h
        · rename_i style text rest hscalar
          cases h
          refine .scalar properties hfront ?_
          rw [htokens, hscalar]
          simp [Draft.rest, hscalar]
        · obtain ⟨_, -, hnext⟩ := Option.map_eq_some_iff.mp h
          cases hnext
          exact .sequence _ _
        · obtain ⟨_, -, hnext⟩ := Option.map_eq_some_iff.mp h
          cases hnext
          exact .mapping _ _
        · split at h
          · obtain ⟨_, -, hnext⟩ := Option.map_eq_some_iff.mp h
            cases hnext
            exact .sequence _ _
          · exact hleft h
        · split at h
          · obtain ⟨_, -, hnext⟩ := Option.map_eq_some_iff.mp h
            cases hnext
            exact .sequence _ _
          · exact hleft h
        · split at h
          · obtain ⟨_, -, hnext⟩ := Option.map_eq_some_iff.mp h
            cases hnext
            exact .mapping _ _
          · exact hleft h
        · exact hleft h

theorem readsAs_of_optional? {handles : Handles} {fuel : Nat} {inBlock indentless : Bool}
    {closers : List Token} {draft next : Draft} {node : Yaml.Node}
    (h : Draft.optional? handles fuel inBlock indentless closers draft = some (node, next)) :
    ReadsAs draft next node := by
  cases fuel with
  | zero => cases h
  | succ fuel =>
    rw [Draft.optional?] at h
    split at h
    · cases h
      exact .empty .none
    · exact readsAs_of_node? h

/-- The first entry of a document that begins with the tokens of its key. -/
theorem documentOf?_headTokens {tokens : List Token} {root : Yaml.Node}
    (h : documentOf? (headTokens ++ tokens) = some root) :
    ∃ value between entries, ReadsAs ⟨tokens, []⟩ between value ∧
      (between.tokens.head? = some .key ∨ between.tokens.head? = some .blockEnd) ∧
      root = .mapping .none ((.scalar .none .plain "name", value) :: entries) := by
  have hfuel : stepBound (headTokens ++ tokens) = (4 * tokens.length + 16) + 4 := by
    simp only [stepBound, List.length_append]
    change 4 * (4 + tokens.length) + 4 = _
    omega
  have hhead : headTokens ++ tokens =
      .blockMappingStart :: .key :: .scalar .plain "name" :: .value :: tokens := rfl
  simp only [documentOf?, hfuel] at h
  rw [hhead] at h
  simp only [endsDocument, Bool.false_eq_true, if_false] at h
  rw [Draft.node?] at h
  simp only [Draft.properties?, Draft.rest, List.tail_cons, if_true] at h
  rw [Draft.blockEntries?] at h
  simp only [Draft.rest, List.tail_cons, Option.bind_eq_bind, Option.bind_eq_some_iff,
    Option.map_eq_some_iff] at h
  obtain ⟨_, ⟨_, ⟨⟨key, behind⟩, hkey, ⟨value, between⟩, hvalue, ⟨entries, last⟩, hentries, hall⟩,
    rfl⟩, hroot⟩ := h
  cases hall
  have hname : Draft.optional? Handles.standard (4 * tokens.length + 18) true true
      [.key, .value, .blockEnd] ⟨.scalar .plain "name" :: .value :: tokens, []⟩ =
        some (.scalar .none .plain "name", ⟨.value :: tokens, []⟩) := by
    rw [Draft.optional?, Draft.node?]
    rfl
  cases hname.symm.trans hkey
  have hreads : ReadsAs ⟨tokens, []⟩ between value := by
    rw [Draft.value?] at hvalue
    exact readsAs_of_optional? hvalue
  refine ⟨value, between, entries, hreads, ?_, ?_⟩
  · rw [Draft.blockEntries?] at hentries
    split at hentries
    · rename_i htokens
      exact .inl (by rw [htokens]; rfl)
    · rename_i htokens
      exact .inr (by rw [htokens]; rfl)
    · cases hentries
  · dsimp only at hroot
    split at hroot
    · cases hroot
      rfl
    · cases hroot

/-! ## Reading the name -/

/-- A reading that succeeds does so step by step. -/
theorem visit_bind {α β : Type} {action : Visit α} {next : α → Visit β} {left : Nat}
    {result : β × Nat} (h : (action >>= next).run left = some result) :
    ∃ a left', action.run left = some (a, left') ∧ (next a).run left' = some result := by
  rw [StateT.run_bind, Option.bind_eq_bind, Option.bind_eq_some_iff] at h
  obtain ⟨⟨a, left'⟩, haction, hnext⟩ := h
  exact ⟨a, left', haction, hnext⟩

/-- A slot that is filled stays as it is. -/
theorem fillSlots_kept {names : List String} {slots slots' : List (Option View)}
    {entries : List (View × View)} {left left' i : Nat} {value : View}
    (h : (View.fillSlots names slots entries).run left = some (slots', left'))
    (hslot : slots[i]? = some (some value)) : slots'[i]? = some (some value) := by
  induction entries generalizing slots left with
  | nil =>
    cases h
    exact hslot
  | cons entry rest ih =>
    obtain ⟨key, other⟩ := entry
    rw [View.fillSlots] at h
    obtain ⟨name, between, -, hrest⟩ := visit_bind h
    split at hrest
    · exact ih hrest hslot
    · rename_i j hj
      split at hrest
      · rename_i hfree
        refine ih hrest ?_
        rw [List.getElem?_set_ne, hslot]
        rintro rfl
        rw [hslot] at hfree
        cases hfree
      · cases hrest

/-- The name of a project is the text of the first entry, if that entry has its key. -/
theorem read?_first {marked : List (Nat × Yaml.Node)} {value : Yaml.Node}
    {entries : List (Yaml.Node × Yaml.Node)} {limit : Nat} {settings : ProjectSettings}
    (h : (ProjectSettings.read? (⟨marked, depthLimit,
      .mapping .none ((.scalar .none .plain "name", value) :: entries)⟩ : View)).run' limit =
        some settings) :
    ∃ left left', (View.text? ⟨marked, depthLimit - 1, value⟩).run left =
      some (settings.name, left') := by
  obtain ⟨⟨found, left⟩, hread, rfl⟩ := Option.map_eq_some_iff.mp h
  obtain ⟨slots, between, hslots, hrest⟩ := visit_bind hread
  have hfirst : slots[0]? = some (some ⟨marked, depthLimit - 1, value⟩) := by
    change (View.slots? _ _).run limit = _ at hslots
    rw [View.slots?] at hslots
    obtain ⟨views, start, hviews, hfill⟩ := visit_bind hslots
    cases hviews
    simp only [List.map_cons] at hfill
    rw [View.fillSlots] at hfill
    obtain ⟨name, behind, hname, hfill⟩ := visit_bind hfill
    cases hname
    exact fillSlots_kept hfill rfl
  split at hrest
  · rename_i name version package models output
    cases hfirst
    obtain ⟨text, behind, htext, hrest⟩ := visit_bind hrest
    obtain ⟨_, _, -, hrest⟩ := visit_bind hrest
    obtain ⟨_, _, -, hrest⟩ := visit_bind hrest
    obtain ⟨_, _, -, hrest⟩ := visit_bind hrest
    obtain ⟨_, _, -, hrest⟩ := visit_bind hrest
    cases hrest
    exact ⟨between, behind, htext⟩
  · cases hrest

theorem names_of_read {tokens : List Token} {root : Yaml.Node} {limit : Nat}
    {settings : ProjectSettings} (hroot : documentOf? (headTokens ++ tokens) = some root)
    (h : (ProjectSettings.read? (⟨root.marked.reverse, depthLimit, root⟩ : View)).run' limit =
      some settings) : settings.name = "" ∨ Names tokens settings.name := by
  obtain ⟨value, between, entries, hreads, hhead, rfl⟩ := documentOf?_headTokens hroot
  obtain ⟨left, left', htext⟩ := read?_first h
  cases hreads with
  | reference hlookup => cases hlookup
  | empty properties =>
    have hname : some ("", left) = some (settings.name, left') := htext
    exact .inl (Prod.mk.inj (Option.some.inj hname)).1.symm
  | @scalar front properties style text hfront htokens =>
    have hname : some (text, left) = some (settings.name, left') := htext
    rw [← (Prod.mk.inj (Option.some.inj hname)).1]
    refine .inr ⟨style, between.tokens, ?_, hhead⟩
    change tokens = _ at htokens
    rw [htokens, dropWhile_properties hfront]
    rfl
  | sequence properties items => cases htext
  | mapping properties entries => cases htext

/-! ## Tokens that give another name -/

/-- Behind properties stands something that is no scalar of that text. -/
def refutes (name : String) (tokens : List Token) : Bool :=
  match (tokens.dropWhile isProperty).head? with
  | none => false
  | some (.scalar _ text) => text != name
  | some _ => true

theorem not_names_of_refutes {name : String} {tokens : List Token}
    (h : refutes name tokens = true) : ¬ Names tokens name := by
  rintro ⟨style, rest, htokens, -⟩
  simp [refutes, htokens] at h

theorem refutes_append {name : String} {tokens : List Token} (h : refutes name tokens = true)
    (more : List Token) : refutes name (tokens ++ more) = true := by
  rw [refutes] at h ⊢
  rw [List.dropWhile_append]
  cases hdrop : tokens.dropWhile isProperty with
  | nil => simp [hdrop] at h
  | cons token rest =>
    rw [hdrop] at h
    simpa using h

/-- A key that is announced in front of a scalar takes its place as the value. -/
theorem refutes_insert {name : String} {front back : List Token} {token : Token}
    (htoken : token = .key ∨ token = .blockMappingStart)
    (h : refutes name (front ++ back) = true ∨ front.dropWhile isProperty = []) :
    refutes name (front ++ token :: back) = true := by
  rw [refutes, List.dropWhile_append]
  cases hdrop : front.dropWhile isProperty with
  | nil => rcases htoken with rfl | rfl <;> rfl
  | cons first rest =>
    rcases h with h | h
    · rw [refutes, List.dropWhile_append, hdrop] at h
      simpa using h
    · rw [hdrop] at h
      cases h

/-- Tokens in front of which nothing is put begin the list. -/
theorem split_of_length_le {α : Type} {front back start rest : List α}
    (h : front ++ back = start ++ rest) (hlength : start.length ≤ front.length) :
    ∃ more, front = start ++ more ∧ rest = more ++ back := by
  rw [List.append_eq_append_iff] at h
  rcases h with ⟨beyond, hstart, hback⟩ | ⟨more, hfront, hrest⟩
  · have hnil : beyond = [] := by
      rw [hstart, List.length_append] at hlength
      exact List.eq_nil_of_length_eq_zero (by omega)
    subst hnil
    exact ⟨[], by simpa using hstart.symm, by simpa using hback.symm⟩
  · exact ⟨more, hfront, hrest⟩

theorem outlasts_refutes (name : String) :
    Outlasts (4 ≤ ·) fun tokens => ∃ rest, tokens = headTokens ++ rest ∧
      refutes name rest = true where
  append := by
    rintro tokens more ⟨rest, rfl, h⟩
    exact ⟨rest ++ more, List.append_assoc _ _ _, refutes_append h more⟩
  insert := by
    rintro front back token hspot htoken ⟨rest, hrest, h⟩
    obtain ⟨more, rfl, rfl⟩ := split_of_length_le hrest hspot
    exact ⟨more ++ token :: back, List.append_assoc _ _ _, refutes_insert htoken (.inl h)⟩

/-- A scalar right behind another one cannot be read as part of a mapping. A key announced in front
of the first would take its place; in front of the second none is pending. -/
theorem outlasts_scalars (name : String) {properties : List Token}
    (hproperties : ∀ token ∈ properties, isProperty token = true) :
    Outlasts (fun n => 4 ≤ n ∧ n ≠ properties.length + 5) fun tokens =>
      ∃ rest, tokens = headTokens ++ rest ∧ (refutes name rest = true ∨
        ∃ style text style' text' more,
          rest = properties ++ .scalar style text :: .scalar style' text' :: more) where
  append := by
    rintro tokens more ⟨rest, rfl, h | ⟨style, text, style', text', others, rfl⟩⟩
    · exact ⟨rest ++ more, List.append_assoc _ _ _, .inl (refutes_append h more)⟩
    · exact ⟨_, List.append_assoc _ _ _, .inr ⟨style, text, style', text', others ++ more, by simp⟩⟩
  insert := by
    rintro front back token ⟨hspot, hother⟩ htoken ⟨rest, hrest, h⟩
    obtain ⟨more, rfl, rfl⟩ := split_of_length_le hrest hspot
    refine ⟨more ++ token :: back, List.append_assoc _ _ _, ?_⟩
    rcases h with h | ⟨style, text, style', text', others, h⟩
    · exact .inl (refutes_insert htoken (.inl h))
    · have hlength : more.length ≠ properties.length + 1 := by
        intro hmore
        apply hother
        rw [List.length_append, hmore]
        change 4 + _ = _
        omega
      by_cases hbefore : more.length ≤ properties.length
      · obtain ⟨_, hsplit, -⟩ := split_of_length_le h.symm hbefore
        refine .inl (refutes_insert htoken (.inr ?_))
        rw [List.dropWhile_eq_nil_iff]
        intro first hfirst
        exact hproperties first (by rw [hsplit]; exact List.mem_append_left _ hfirst)
      · have hsplit : more ++ back = (properties ++ [.scalar style text, .scalar style' text']) ++
            others := by simpa using h
        obtain ⟨between, rfl, rfl⟩ := split_of_length_le hsplit (by simp; omega)
        exact .inr ⟨style, text, style', text', between ++ token :: back, by simp⟩

theorem not_names_of_scalars {name : String} {properties : List Token}
    (hproperties : ∀ token ∈ properties, isProperty token = true) {style style' : Style}
    {text text' : String} {more : List Token} :
    ¬ Names (properties ++ .scalar style text :: .scalar style' text' :: more) name := by
  rintro ⟨_, rest, hdrop, hhead⟩
  rw [dropWhile_properties hproperties] at hdrop
  cases hdrop
  simp at hhead

/-! ## Before the value -/

/-- The key of the name has been read, and of its value at most properties. -/
structure Awaits (lexer : Lexer) : Prop where
  flow : lexer.flow = 0
  indents : lexer.indents = [0]
  outerKeys : lexer.outerKeys = []
  key : ∀ key, lexer.key = some key → 4 ≤ key.position ∧ key.position ≤ lexer.tokens.length
  tokens : ∃ properties, (∀ token ∈ properties, isProperty token = true) ∧
    lexer.tokens = properties ++ headTokens.reverse

namespace Awaits

variable {lexer next : Lexer} {name : String}

theorem le_length (h : Awaits lexer) : 4 ≤ lexer.tokens.length := by
  obtain ⟨properties, -, htokens⟩ := h.tokens
  rw [htokens, List.length_append]
  exact Nat.le_add_left _ _

theorem spots (h : Awaits lexer) : Spots (4 ≤ ·) lexer := by
  refine ⟨?_, fun n hn => Nat.le_trans h.le_length hn⟩
  · rintro key (hkey | hkey)
    · exact (h.key key hkey).1
    · rw [h.outerKeys] at hkey
      cases hkey

/-- Once a token stands behind the properties that is no scalar of that text, it is settled that the
name is another one. -/
theorem refutes_of_tokens (h : Awaits lexer) {more : List Token} {token : Token}
    (htoken : refutes name [token] = true) (hnext : next.tokens = more ++ token :: lexer.tokens) :
    ∃ rest, next.tokens.reverse = headTokens ++ rest ∧ refutes name rest = true := by
  obtain ⟨properties, hproperties, htokens⟩ := h.tokens
  refine ⟨properties.reverse ++ token :: more.reverse, ?_, ?_⟩
  · rw [hnext, htokens]
    simp
  · have hreverse : ∀ other ∈ properties.reverse, isProperty other = true := by
      simpa using hproperties
    have hmore := refutes_append htoken more.reverse
    rw [refutes] at hmore ⊢
    rw [dropWhile_properties hreverse]
    exact hmore

/-- A key is announced among the properties. -/
theorem refutes_of_insertAt (h : Awaits lexer) {key : PendingKey} (hkey : lexer.key = some key) :
    ∃ rest, (lexer.insertAt key.position .key).tokens.reverse = headTokens ++ rest ∧
      refutes name rest = true := by
  obtain ⟨properties, hproperties, htokens⟩ := h.tokens
  have hposition := (h.key key hkey).1
  have hlength : lexer.tokens.length = properties.length + 4 := by
    rw [htokens, List.length_append]
    rfl
  have hsplit : (lexer.tokens.drop (lexer.tokens.length - key.position)).reverse ++
      (lexer.tokens.take (lexer.tokens.length - key.position)).reverse =
        headTokens ++ properties.reverse := by
    rw [← List.reverse_append, List.take_append_drop, htokens, List.reverse_append,
      List.reverse_reverse]
  obtain ⟨more, hfront, hmore⟩ := split_of_length_le hsplit (by
    rw [List.length_reverse, List.length_drop]
    change 4 ≤ _
    omega)
  refine ⟨more ++ .key :: (lexer.tokens.take (lexer.tokens.length - key.position)).reverse, ?_,
    refutes_insert (.inl rfl) (.inr ?_)⟩
  · simp only [insertAt, List.reverse_append, List.reverse_cons, hfront, List.append_assoc,
      List.singleton_append]
  · rw [List.dropWhile_eq_nil_iff]
    intro token htoken
    refine hproperties token (List.mem_reverse.mp ?_)
    rw [hmore]
    exact List.mem_append_left _ htoken

end Awaits

/-! ## The next token -/

/-- Gaps end within the line or before the word behind it. -/
theorem skipGapsFrom_split {keyAllowed inComment : Bool} {place : Position}
    {line rest : List Char}
    (hrest : ∀ c ∈ rest.head?, isGap c = false ∧ c ≠ '#' ∧ c ≠ '\ufeff') :
    (∃ c cs, (skipGapsFrom false keyAllowed inComment place (line ++ '\n' :: rest)).1.rest =
        c :: (cs ++ '\n' :: rest) ∧ c :: cs <:+ line) ∨
      ((skipGapsFrom false keyAllowed inComment place (line ++ '\n' :: rest)).1.rest = rest ∧
        (skipGapsFrom false keyAllowed inComment place (line ++ '\n' :: rest)).1.column = 0) := by
  induction line generalizing keyAllowed inComment place with
  | nil =>
    right
    have hbreak : isBreak '\n' = true := rfl
    rw [List.nil_append, skipGapsFrom, if_pos hbreak]
    cases rest with
    | nil => exact ⟨rfl, rfl⟩
    | cons c cs =>
      obtain ⟨hgap, hhash, hmark⟩ := hrest c rfl
      simp only [isGap, isBlank, Bool.or_eq_false_iff, beq_eq_false_iff_ne] at hgap
      rw [skipGapsFrom, if_neg (by simp [hgap.2]), if_neg (by simp [hhash]),
        if_neg (by simp [hgap.1.1, hmark])]
      exact ⟨rfl, rfl⟩
  | cons c cs ih =>
    have hmore : ∀ {keyAllowed inComment : Bool} {place : Position},
        (∃ d ds, (skipGapsFrom false keyAllowed inComment place (cs ++ '\n' :: rest)).1.rest =
            d :: (ds ++ '\n' :: rest) ∧ d :: ds <:+ c :: cs) ∨
          ((skipGapsFrom false keyAllowed inComment place (cs ++ '\n' :: rest)).1.rest = rest ∧
            (skipGapsFrom false keyAllowed inComment place
              (cs ++ '\n' :: rest)).1.column = 0) := by
      intro keyAllowed inComment place
      refine ih.imp_left ?_
      rintro ⟨d, ds, hd, hsuffix⟩
      exact ⟨d, ds, hd, hsuffix.trans (List.suffix_cons c cs)⟩
    rw [List.cons_append, skipGapsFrom]
    split
    · exact hmore
    · split
      · exact hmore
      · split
        · exact hmore
        · exact .inl ⟨c, cs, rfl, List.suffix_rfl⟩

section Token

variable {lexer next : Lexer} {name : String} {c : Char} {cs : List Char}

/-- A scalar in double quotes has gone on to the next line, and has ended at the quote there. -/
structure Crosses (lexer next : Lexer) : Prop where
  tokens : ∃ text, next.tokens = .scalar .quoted text :: lexer.tokens
  flow : next.flow = 0
  indents : next.indents = [0]
  outerKeys : next.outerKeys = []
  keyAllowed : next.keyAllowed = false
  key : ∀ key, next.key = some key → 4 ≤ key.position ∧ key.position ≤ lexer.tokens.length
  rest : next.cursor.rest = "0.1.0".toList ++ '"' :: '\n' :: '\n' :: '#' ::
    (packageComment.toList ++ '\n' :: packageLines)
  column : 0 < next.cursor.column

/-- What the next token can be while the value is awaited, if it begins on the line `c :: cs`. -/
inductive Outcome (name : String) (c : Char) (cs : List Char) (lexer next : Lexer) : Prop where
  /-- A property, which ends on the line. -/
  | awaits : Awaits next →
      (∃ line, next.cursor.rest = line ++ '\n' :: versionLines ∧ line <:+ c :: cs) →
      Outcome name c cs lexer next
  /-- Something that makes the name another one. -/
  | settled : (∃ rest, next.tokens.reverse = headTokens ++ rest ∧ refutes name rest = true) →
      Outcome name c cs lexer next
  /-- The line is a plain scalar. -/
  | plain : startsLine (c :: cs) = true → isPlainRest false (c :: cs) = true →
      name.toList = c :: cs → Outcome name c cs lexer next
  /-- The line begins a scalar that does not end on it. -/
  | crossed : Crosses lexer next → Outcome name c cs lexer next

theorem Awaits.settled (h : Awaits lexer) {token : Token} (htoken : refutes name [token] = true)
    (hnext : next.tokens = token :: lexer.tokens) : Outcome name c cs lexer next :=
  .settled (h.refutes_of_tokens htoken (hnext.trans (List.nil_append _).symm))

theorem Awaits.saved (h : Awaits lexer) {saved : Lexer} (hsave : lexer.saveKey? = some saved) :
    saved = { lexer with key := saved.key } ∧ ∀ key, saved.key = some key →
      4 ≤ key.position ∧ key.position ≤ lexer.tokens.length := by
  obtain ⟨pending, rfl, hpending⟩ := saveKey?_eq hsave
  refine ⟨rfl, fun key hkey => ?_⟩
  rcases hpending key hkey with hold | hnew
  · exact h.key key hold
  · rw [hnew]
    exact ⟨h.le_length, Nat.le_refl _⟩

/-- Behind a property the value is still awaited. -/
theorem Awaits.property (h : Awaits lexer)
    (hrest : lexer.cursor.rest = c :: (cs ++ '\n' :: versionLines)) {saved : Lexer}
    (hsave : lexer.saveKey? = some saved) {token : Token} (htoken : isProperty token = true)
    {cursor : Cursor} (hpasses : lexer.cursor.Passes cursor) :
    Outcome name c cs lexer { saved.push token with cursor, keyAllowed := false } := by
  obtain ⟨hsaved, hkey⟩ := h.saved hsave
  obtain ⟨properties, hproperties, htokens⟩ := h.tokens
  have htokens' : saved.tokens = lexer.tokens := by rw [hsaved]
  refine .awaits ⟨?_, ?_, ?_, fun key hsome => ?_, token :: properties, ?_, ?_⟩
    (hpasses.of_newline hrest)
  · rw [hsaved]
    exact h.flow
  · rw [hsaved]
    exact h.indents
  · rw [hsaved]
    exact h.outerKeys
  · obtain ⟨hle, hle'⟩ := hkey key hsome
    refine ⟨hle, ?_⟩
    change key.position ≤ saved.tokens.length + 1
    rw [htokens']
    exact Nat.le_succ_of_le hle'
  · simpa [htoken] using hproperties
  · change token :: saved.tokens = _
    rw [htokens', htokens, List.cons_append]

theorem outcome_of_reference? (h : Awaits lexer)
    (hrest : lexer.cursor.rest = c :: (cs ++ '\n' :: versionLines)) (hc : isBreak c = false)
    (hnext : lexer.reference? .anchor = some next) : Outcome name c cs lexer next := by
  simp only [reference?, Option.bind_eq_bind, Option.bind_eq_some_iff] at hnext
  obtain ⟨saved, hsave, ⟨anchor, cursor⟩, hname, hnext⟩ := hnext
  cases hnext
  have hcursor : saved.cursor = lexer.cursor := by rw [(h.saved hsave).1]
  rw [hcursor] at hname
  refine h.property hrest hsave rfl (Cursor.Passes.trans ?_ (passes_name? hname))
  apply Cursor.passes_forward
  simp [hrest, hc]

theorem outcome_of_tagToken? (h : Awaits lexer)
    (hrest : lexer.cursor.rest = c :: (cs ++ '\n' :: versionLines)) (hc : isBreak c = false)
    (hnext : lexer.tagToken? = some next) : Outcome name c cs lexer next := by
  simp only [tagToken?, Option.bind_eq_bind, Option.bind_eq_some_iff] at hnext
  obtain ⟨saved, hsave, ⟨token, cursor⟩, htag, hnext⟩ := hnext
  cases hnext
  have hcursor : saved.cursor = lexer.cursor := by rw [(h.saved hsave).1]
  rw [hcursor] at htag
  obtain ⟨hpasses, handle, suffix, rfl⟩ := passes_tag? (by simp [hrest, hc]) htag
  exact h.property hrest hsave rfl hpasses

/-- A shorter text is another name. -/
theorem Awaits.shorter (h : Awaits lexer) {style : Style} {text : List Char}
    (hname : text.length < name.toList.length)
    (hnext : next.tokens = .scalar style (String.ofList text) :: lexer.tokens) :
    Outcome name c cs lexer next := by
  refine h.settled ?_ hnext
  have hne : String.ofList text ≠ name := by
    rintro rfl
    rw [String.toList_ofList] at hname
    exact Nat.lt_irrefl _ hname
  simpa [refutes, isProperty] using hne

theorem head?_versionLines :
    ∀ c ∈ versionLines.head?, isGap c = false ∧ c ≠ '#' ∧ c ≠ '\ufeff' := by
  intro c hc
  obtain ⟨⟨hgap, hhash⟩, -, -, hmark⟩ := isKey_version.head_append _ c hc
  exact ⟨hgap, hhash, hmark⟩

theorem outcome_of_blockScalar? (h : Awaits lexer)
    (hrest : lexer.cursor.rest = c :: (cs ++ '\n' :: versionLines)) {style : Style}
    (hname : (c :: cs).length ≤ name.toList.length)
    (hnext : lexer.blockScalar? style = some next) : Outcome name c cs lexer next := by
  simp only [blockScalar?, Option.bind_eq_bind, Option.bind_eq_some_iff] at hnext
  obtain ⟨dropped, hdrop, ⟨text, cursor⟩, hblock, hnext⟩ := hnext
  cases hnext
  cases dropKey?_eq hdrop
  have hforward : (lexer.cursor.forward 1).rest = cs ++ '\n' :: versionLines := by
    simp [Cursor.forward, hrest]
  have hle := block?_length_le (fun c hc => (head?_versionLines c hc).1) hforward hblock
  rw [List.length_cons] at hname
  exact h.shorter (Nat.lt_of_le_of_lt hle hname) rfl

theorem outcome_of_singleQuoted? (h : Awaits lexer)
    (hrest : lexer.cursor.rest = c :: (cs ++ '\n' :: versionLines))
    (hname : (c :: cs).length ≤ name.toList.length)
    (hnext : lexer.quotedScalar? singleQuoted? = some next) : Outcome name c cs lexer next := by
  simp only [quotedScalar?, Option.bind_eq_bind, Option.bind_eq_some_iff] at hnext
  obtain ⟨saved, hsave, ⟨text, cursor⟩, hread, hnext⟩ := hnext
  cases hnext
  have hsaved := (h.saved hsave).1
  have hforward : (saved.cursor.forward 1).rest = cs ++ '\n' :: versionLines := by
    rw [hsaved]
    simp [Cursor.forward, hrest]
  rw [singleQuoted?, hforward] at hread
  obtain ⟨front, hfront, hle⟩ := singleQuotedFrom_split hread
  have hno : '\'' ∉ '\n' :: versionLines := by decide +kernel
  have hshort : front.length ≤ cs.length := by
    rw [List.append_eq_append_iff] at hfront
    rcases hfront with ⟨beyond, -, hbeyond⟩ | ⟨more, rfl, -⟩
    · refine absurd ?_ hno
      rw [hbeyond]
      exact List.mem_append_right _ List.mem_cons_self
    · rw [List.length_append]
      omega
  rw [List.length_cons] at hname
  refine h.shorter (lt_of_le_of_lt (hle.trans ?_) hname) (by rw [hsaved]; rfl)
  simpa using hshort

theorem outcome_of_doubleQuoted? (h : Awaits lexer)
    (hrest : lexer.cursor.rest = c :: (cs ++ '\n' :: versionLines))
    (hname : (c :: cs).length ≤ name.toList.length)
    (hnext : lexer.quotedScalar? doubleQuoted? = some next) : Outcome name c cs lexer next := by
  simp only [quotedScalar?, Option.bind_eq_bind, Option.bind_eq_some_iff] at hnext
  obtain ⟨saved, hsave, ⟨text, cursor⟩, hread, hnext⟩ := hnext
  cases hnext
  obtain ⟨hsaved, hkey⟩ := h.saved hsave
  have hforward : (saved.cursor.forward 1).rest = cs ++ '\n' ::
      (("version".toList ++ [':']) ++ ' ' :: '"' :: ("0.1.0".toList ++ '"' :: '\n' :: '\n' ::
        '#' :: (packageComment.toList ++ '\n' :: packageLines))) := by
    rw [hsaved]
    unfold versionLines at hrest
    simp [Cursor.forward, hrest]
  rw [doubleQuoted?, hforward] at hread
  rcases doubleQuotedFrom_split (List.all_eq_true.mp (by decide)) (by decide) (by simp) hread with
    hlt | ⟨hcross, hcolumn⟩
  · rw [List.length_cons] at hname
    refine h.shorter (Nat.lt_trans ?_ hname) (by rw [hsaved]; rfl)
    simpa [QuoteState.width] using hlt
  · refine .crossed ⟨⟨_, by rw [hsaved]; rfl⟩, ?_, ?_, ?_, rfl, hkey, hcross, hcolumn⟩
    · rw [hsaved]
      exact h.flow
    · rw [hsaved]
      exact h.indents
    · rw [hsaved]
      exact h.outerKeys

theorem startsLine_of_startsPlain {rest : List Char}
    (hstarts : startsPlain false (c :: (cs ++ '\n' :: rest)) = true)
    (hdash : ¬ (c == '-' && atGap (cs ++ '\n' :: rest)) = true) : startsLine (c :: cs) = true := by
  have hgap : atGap (cs ++ '\n' :: rest) = atGap cs := by
    cases cs <;> rfl
  rw [hgap] at hdash
  simp only [startsPlain, hgap, Bool.not_false, Bool.true_and, Bool.or_eq_true, Bool.and_eq_true,
    Bool.not_eq_true', beq_iff_eq] at hstarts hdash
  simp only [startsLine, Bool.or_eq_true, Bool.and_eq_true, Bool.not_eq_true', beq_iff_eq]
  rcases hstarts with (hnone | ⟨rfl, -⟩) | ⟨hmark, hcs⟩
  · exact .inl hnone
  · exact .inr ⟨.inl (.inl rfl), by simpa using hdash⟩
  · exact .inr ⟨hmark.elim (fun h => .inl (.inr h)) .inr, hcs⟩

theorem outcome_of_plainScalar? (h : Awaits lexer)
    (hrest : lexer.cursor.rest = c :: (cs ++ '\n' :: versionLines))
    (hname : (c :: cs).length ≤ name.toList.length) (hstarts : startsLine (c :: cs) = true)
    (hnext : lexer.plainScalar? = some next) : Outcome name c cs lexer next := by
  simp only [plainScalar?, Option.bind_eq_bind, Option.bind_eq_some_iff] at hnext
  obtain ⟨saved, hsave, plain, hread, hnext⟩ := hnext
  cases hnext
  have hsaved := (h.saved hsave).1
  have htokens : (saved.push (.scalar .plain (String.ofList plain.text))).tokens =
      .scalar .plain (String.ofList plain.text) :: lexer.tokens := by
    rw [hsaved]
    rfl
  have hflow : saved.inFlow = false := by
    rw [hsaved, inFlow, h.flow]
    rfl
  have hindents : saved.indents = [0] := by
    rw [hsaved, h.indents]
  have hcursor : saved.cursor.rest = (c :: cs) ++ '\n' :: versionLines := by
    rw [hsaved, hrest, List.cons_append]
  rw [hflow, hindents, plain?, hcursor] at hread
  rcases plainFrom_inline Nat.one_pos (fun c hc => (head?_versionLines c hc).1) (by simp) hread with
    hlt | ⟨hplain, htext⟩
  · refine h.shorter (Nat.lt_of_lt_of_le ?_ hname) htokens
    simpa using hlt
  · by_cases hsame : String.ofList plain.text = name
    · refine .plain hstarts hplain ?_
      rw [← hsame, String.toList_ofList, htext]
      rfl
    · refine h.settled ?_ htokens
      simpa [refutes, isProperty] using hsame

/-- A document mark or a directive ends the mapping first. -/
theorem Awaits.settled_of_closed (h : Awaits lexer) {dropped : Lexer} {token : Token}
    (hdrop : (lexer.closeBlocks fun _ => true).dropKey? = some dropped)
    (hnext : next.tokens = token :: dropped.tokens) : Outcome name c cs lexer next := by
  have hclosed : dropped.tokens = .blockEnd :: lexer.tokens := by
    rw [dropKey?_eq hdrop]
    simp [closeBlocks, inFlow, h.flow, h.indents]
  have htokens : next.tokens = [token] ++ .blockEnd :: lexer.tokens := by
    rw [hnext, hclosed]
    rfl
  exact .settled (h.refutes_of_tokens rfl htokens)

/-- A dash, a question mark or a colon may open a block first. -/
theorem Awaits.settled_of_opened (h : Awaits lexer) {opener token : Token}
    (hopener : refutes name [opener] = true) (htoken : refutes name [token] = true)
    (hnext : next.tokens = token :: (lexer.openBlockHere opener).tokens) :
    Outcome name c cs lexer next := by
  rcases openBlockHere_cases lexer opener with hsame | hopens
  · rw [hsame] at hnext
    exact h.settled htoken hnext
  · rw [hopens] at hnext
    have htokens : next.tokens = [token] ++ opener :: lexer.tokens := hnext
    exact .settled (h.refutes_of_tokens hopener htokens)

theorem outcome_of_value? (h : Awaits lexer) (hnext : lexer.value? = some next) :
    Outcome name c cs lexer next := by
  unfold value? at hnext
  split at hnext
  · rename_i key hkey
    cases hnext
    have hpends : (lexer.insertAt key.position .key).Pends key := .inl hkey
    have hgrows := (grows_openBlock hpends key.place.column).trans (grows_push _ .value)
    have hspots := (grows_insertAt (.inl hkey) (.inl rfl)).spots h.spots
    exact .settled (hgrows _ _ (outlasts_refutes name) hspots (h.refutes_of_insertAt hkey)).2
  · split at hnext
    · cases hnext
    · cases hnext
      exact h.settled_of_opened rfl rfl rfl

theorem outcome_of_token? (h : Awaits lexer)
    (hrest : lexer.cursor.rest = c :: (cs ++ '\n' :: versionLines))
    (hname : (c :: cs).length ≤ name.toList.length) (hnext : lexer.token? = some next) :
    Outcome name c cs lexer next := by
  have hflow : lexer.inFlow = false := by
    rw [inFlow, h.flow]
    rfl
  simp only [token?, hrest, hflow] at hnext
  refine ite_elim hnext (fun _ hnext => ?_) fun _ hnext => ?_
  · simp only [directiveLine?, Option.bind_eq_bind, Option.bind_eq_some_iff] at hnext
    obtain ⟨dropped, hdrop, ⟨token, cursor⟩, -, hnext⟩ := hnext
    cases hnext
    exact h.settled_of_closed hdrop rfl
  refine ite_elim hnext (fun _ hnext => ?_) fun _ hnext => ?_
  · obtain ⟨dropped, hdrop, rfl⟩ := Option.map_eq_some_iff.mp hnext
    exact h.settled_of_closed hdrop rfl
  refine ite_elim hnext (fun _ hnext => h.settled rfl (tokens_openFlow? hnext)) fun _ hnext => ?_
  refine ite_elim hnext (fun _ hnext => h.settled rfl (tokens_openFlow? hnext)) fun _ hnext => ?_
  refine ite_elim hnext (fun _ hnext => h.settled rfl (tokens_closeFlow? hnext)) fun _ hnext => ?_
  refine ite_elim hnext (fun _ hnext => h.settled rfl (tokens_closeFlow? hnext)) fun _ hnext => ?_
  refine ite_elim hnext (fun _ hnext => ?_) fun _ hnext => ?_
  · obtain ⟨dropped, hdrop, rfl⟩ := Option.map_eq_some_iff.mp hnext
    cases dropKey?_eq hdrop
    exact h.settled rfl rfl
  refine ite_elim hnext (fun _ hnext => ?_) fun hdash hnext => ?_
  · unfold blockEntry? at hnext
    refine ite_elim hnext (fun _ hnext => by cases hnext) fun _ hnext => ?_
    obtain ⟨dropped, hdrop, rfl⟩ := Option.map_eq_some_iff.mp hnext
    cases dropKey?_eq hdrop
    exact h.settled_of_opened rfl rfl rfl
  refine ite_elim hnext (fun _ hnext => ?_) fun _ hnext => ?_
  · unfold explicitKey? at hnext
    refine ite_elim hnext (fun _ hnext => by cases hnext) fun _ hnext => ?_
    obtain ⟨dropped, hdrop, rfl⟩ := Option.map_eq_some_iff.mp hnext
    cases dropKey?_eq hdrop
    exact h.settled_of_opened rfl rfl rfl
  refine ite_elim hnext (fun _ hnext => outcome_of_value? h hnext) fun _ hnext => ?_
  refine ite_elim hnext (fun _ hnext => ?_) fun _ hnext => ?_
  · simp only [reference?, Option.bind_eq_bind, Option.bind_eq_some_iff] at hnext
    obtain ⟨saved, hsave, ⟨alias', cursor⟩, -, hnext⟩ := hnext
    cases hnext
    exact h.settled rfl (by rw [(h.saved hsave).1]; rfl)
  refine ite_elim hnext (fun hc hnext => ?_) fun _ hnext => ?_
  · exact outcome_of_reference? h hrest (by rw [beq_iff_eq.mp hc]; rfl) hnext
  refine ite_elim hnext (fun hc hnext => ?_) fun _ hnext => ?_
  · exact outcome_of_tagToken? h hrest (by rw [beq_iff_eq.mp hc]; rfl) hnext
  refine ite_elim hnext (fun _ hnext => outcome_of_blockScalar? h hrest hname hnext)
    fun _ hnext => ?_
  refine ite_elim hnext (fun _ hnext => outcome_of_blockScalar? h hrest hname hnext)
    fun _ hnext => ?_
  refine ite_elim hnext (fun _ hnext => outcome_of_singleQuoted? h hrest hname hnext)
    fun _ hnext => ?_
  refine ite_elim hnext (fun _ hnext => outcome_of_doubleQuoted? h hrest hname hnext)
    fun _ hnext => ?_
  refine ite_elim hnext (fun hstarts hnext => ?_) fun _ hnext => by cases hnext
  exact outcome_of_plainScalar? h hrest hname (startsLine_of_startsPlain hstarts hdash) hnext

end Token

/-! ## The next step -/

section Step

variable {lexer next : Lexer} {name : String} {line : List Char}

theorem eq_inBlock (hflow : lexer.flow = 0) (houter : lexer.outerKeys = []) :
    lexer = inBlock lexer.cursor.toPosition lexer.cursor.rest lexer.tokens lexer.indents lexer.key
      lexer.keyAllowed := by
  cases lexer
  cases hflow
  cases houter
  rfl

/-- Keys that are given up are pending no more, and nothing else changes. -/
theorem dropStale?_eq (houter : lexer.outerKeys = []) (h : lexer.dropStale? = some next) :
    next = { lexer with key := next.key } ∧
      ∀ key, next.key = some key → lexer.key = some key := by
  simp only [dropStale?, houter, Option.bind_eq_bind, Option.bind_eq_some_iff] at h
  obtain ⟨key, hkey, outer, hempty, hnext⟩ := h
  cases hempty
  cases hnext
  refine ⟨by simp [houter], fun pending hpending => ?_⟩
  rcases freshKey?_eq_some hkey with hnone | hsame
  · cases hnone.symm.trans hpending
  · exact hsame.symm.trans hpending

/-- Before the next token, gaps are passed over and keys given up. -/
theorem Awaits.fresh (h : Awaits lexer) (hstep : lexer.step? = some next) :
    ∃ fresh, Awaits fresh ∧ fresh.cursor = lexer.skipGaps.cursor ∧
      fresh.tokens = lexer.tokens ∧ fresh.token? = some next := by
  simp only [step?, Option.bind_eq_bind, Option.bind_eq_some_iff] at hstep
  obtain ⟨fresh, hfresh, htoken⟩ := hstep
  obtain ⟨heq, hkey⟩ := @dropStale?_eq lexer.skipGaps fresh h.outerKeys hfresh
  have hindents : fresh.indents = [0] := by
    rw [heq]
    exact h.indents
  have htokens : fresh.tokens = lexer.tokens := by
    rw [heq]
    rfl
  rw [closeBlocks_outermost (by simp [hindents])] at htoken
  refine ⟨fresh, ⟨?_, hindents, ?_, fun key hsome => ?_, ?_⟩, by rw [heq], htokens, htoken⟩
  · rw [heq]
    exact h.flow
  · rw [heq]
    exact h.outerKeys
  · rw [htokens]
    exact h.key key (hkey key hsome)
  · rw [htokens]
    exact h.tokens

/-- A word in the outermost block is read as a plain scalar. -/
theorem plain_of_token? (hflow : lexer.flow = 0) (houter : lexer.outerKeys = [])
    (hindents : lexer.indents = [0]) (hstart : startsLine lexer.cursor.rest = true)
    (hhead : ∀ c ∈ lexer.cursor.rest.head?, c ≠ '-' ∧ c ≠ '.') (hnext : lexer.token? = some next) :
    ∃ saved plain, lexer.saveKey? = some saved ∧ plain? false 1 lexer.cursor = some plain ∧
      next.tokens = .scalar .plain (String.ofList plain.text) :: lexer.tokens ∧
      next.key = saved.key ∧ next.outerKeys = [] := by
  have hblock := eq_inBlock hflow houter
  have hplain : lexer.token? = lexer.plainScalar? := by
    rw [hblock]
    exact token?_plain hstart fun _ => hhead
  rw [hplain] at hnext
  simp only [plainScalar?, Option.bind_eq_bind, Option.bind_eq_some_iff] at hnext
  obtain ⟨saved, hsave, plain, hread, hnext⟩ := hnext
  cases hnext
  obtain ⟨pending, rfl, -⟩ := saveKey?_eq hsave
  refine ⟨_, plain, hsave, ?_, rfl, rfl, houter⟩
  simpa [inFlow, hflow, hindents] using hread

/-- The word behind the name, if there is no value. -/
theorem tokens_of_version (h : Awaits lexer) (hrest : lexer.cursor.rest = versionLines)
    (hcolumn : lexer.cursor.column = 0) (hnext : lexer.token? = some next) :
    next.tokens = .scalar .plain "version" :: lexer.tokens := by
  have hstart : startsLine versionLines = true := by decide
  have hhead : ∀ c ∈ versionLines.head?, c ≠ '-' ∧ c ≠ '.' := by
    intro c hc
    obtain ⟨-, hdash, hdot, -⟩ := isKey_version.head_append _ c hc
    exact ⟨hdash, hdot⟩
  rw [← hrest] at hstart hhead
  obtain ⟨_, plain, -, hread, htokens, -⟩ :=
    plain_of_token? h.flow h.outerKeys h.indents hstart hhead hnext
  have hword := @plain?_key "version" lexer.cursor.toPosition isKey_version 1 (by omega)
    ('"' :: ("0.1.0".toList ++ '"' :: '\n' :: '\n' :: '#' ::
      (packageComment.toList ++ '\n' :: packageLines)))
  have hcursor : lexer.cursor = ⟨lexer.cursor.toPosition, versionLines⟩ := by rw [← hrest]
  rw [hcursor] at hread
  cases hword.symm.trans hread
  rw [htokens, String.ofList_toList]

/-- Another scalar follows that is not a key. -/
theorem Crosses.step (h : Crosses lexer next) {after : Lexer} (hstep : next.step? = some after) :
    (∃ text, after.tokens = .scalar .plain text :: next.tokens) ∧
      ∀ key, after.Pends key → next.key = some key := by
  have hhead : next.cursor.rest.head? = some '0' := by rw [h.rest]; rfl
  have hstart : startsLine next.cursor.rest = true := by rw [h.rest]; rfl
  have hgaps : next.skipGaps = next := by
    rw [eq_inBlock h.flow h.outerKeys]
    apply skipGaps_of_head?
    rw [hhead]
    simp [isGap, isBlank, isBreak]
  simp only [step?, Option.bind_eq_bind, Option.bind_eq_some_iff, hgaps] at hstep
  obtain ⟨fresh, hfresh, htoken⟩ := hstep
  obtain ⟨heq, hkey⟩ := dropStale?_eq h.outerKeys hfresh
  have hindents : fresh.indents = [0] := by rw [heq, h.indents]
  have hcursor : fresh.cursor = next.cursor := by rw [heq]
  rw [closeBlocks_outermost (by simp [hindents])] at htoken
  obtain ⟨saved, plain, hsave, -, htokens, hsame, houter⟩ :=
    plain_of_token? (by rw [heq, h.flow]) (by rw [heq, h.outerKeys]) hindents
      (by rw [hcursor, hstart]) (by rw [hcursor, hhead]; simp) htoken
  refine ⟨⟨_, by rw [htokens, heq]⟩, ?_⟩
  rintro key (hpends | hpends)
  · have hnokey : fresh.keyAllowed = false := by rw [heq, h.keyAllowed]
    rw [saveKey?, hnokey] at hsave
    cases hsave
    exact hkey key (hsame.symm.trans hpends)
  · rw [houter] at hpends
    cases hpends

/-- A scalar that goes on to the next line is not the value of the name. -/
theorem Crosses.not_names (h : Crosses lexer next) (hawaits : Awaits lexer) {after final : Lexer}
    (hstep : next.step? = some after) (hgrows : Grows after final) {rest : List Token}
    (hfinal : final.tokens.reverse = headTokens ++ rest) : ¬ Names rest name := by
  obtain ⟨properties, hproperties, htokens⟩ := hawaits.tokens
  obtain ⟨text, hquoted⟩ := h.tokens
  obtain ⟨⟨text', hplain⟩, hpends⟩ := h.step hstep
  have hlength : lexer.tokens.length = properties.length + 4 := by
    rw [htokens, List.length_append]
    rfl
  have hreverse : ∀ token ∈ properties.reverse, isProperty token = true := by
    simpa using hproperties
  have hspots : Spots (fun n => 4 ≤ n ∧ n ≠ properties.reverse.length + 5) after := by
    refine ⟨fun key hkey => ?_, fun n hn => ?_⟩
    · obtain ⟨hle, hle'⟩ := h.key key (hpends key hkey)
      rw [List.length_reverse]
      omega
    · rw [hplain, hquoted, List.length_cons, List.length_cons] at hn
      rw [List.length_reverse]
      omega
  have hscalars : after.tokens.reverse = headTokens ++
      (properties.reverse ++ [.scalar .quoted text, .scalar .plain text']) := by
    rw [hplain, hquoted, htokens]
    simp
  obtain ⟨-, rest', hrest', hend⟩ := hgrows _ _ (outlasts_scalars name hreverse) hspots
    ⟨_, hscalars, .inr ⟨_, _, _, _, [], rfl⟩⟩
  cases List.append_cancel_left (hfinal.symm.trans hrest')
  rcases hend with hrefutes | ⟨style, text, style', text', more, rfl⟩
  · exact not_names_of_refutes hrefutes
  · exact not_names_of_scalars hreverse

end Step

/-! ## The run -/

section Run

variable {lexer next final : Lexer} {name : String} {rest : List Token}

theorem not_names_of_settled (hspots : Spots (4 ≤ ·) next)
    (hsettled : ∃ rest, next.tokens.reverse = headTokens ++ rest ∧ refutes name rest = true)
    (hgrows : Grows next final) (hfinal : final.tokens.reverse = headTokens ++ rest) :
    ¬ Names rest name := by
  obtain ⟨-, rest', hrest', hrefutes⟩ := hgrows _ _ (outlasts_refutes name) hspots hsettled
  cases List.append_cancel_left (hfinal.symm.trans hrest')
  exact not_names_of_refutes hrefutes

/-- If the value is read as the name, the line ends with the name as a plain scalar; or there is no
value, and the next word is the name. -/
theorem suffix_of_names {fuel : Nat} {line : List Char} (h : Awaits lexer)
    (hrest : lexer.cursor.rest = line ++ '\n' :: versionLines)
    (hline : line.length ≤ name.toList.length) (hrun : run? fuel lexer = some final)
    (hfinal : final.tokens.reverse = headTokens ++ rest) (hnames : Names rest name) :
    name = "version" ∨ name.toList <:+ line ∧ startsLine name.toList = true ∧
      isPlainRest false name.toList = true := by
  induction fuel generalizing lexer line with
  | zero => cases hrun
  | succ fuel ih =>
    obtain ⟨next, hstep, hafter⟩ := run?_succ hrun
    have hspots : Spots (4 ≤ ·) next := (grows_step? hstep).spots h.spots
    have hgrows : Grows next final := hafter.elim (fun h => grows_finish? h.2) grows_run?
    have hgoes : next.cursor.rest ≠ [] → run? fuel next = some final := fun hne =>
      hafter.resolve_left fun h => hne h.1
    obtain ⟨fresh, hfresh, hcursor, -, htoken⟩ := h.fresh hstep
    have hgaps : fresh.cursor = (skipGapsFrom false lexer.keyAllowed false lexer.cursor.toPosition
        (line ++ '\n' :: versionLines)).1 := by
      rw [hcursor, skipGaps, inFlow, h.flow, hrest]
      rfl
    rcases skipGapsFrom_split head?_versionLines with ⟨c, cs, hc, hsuffix⟩ | ⟨hversion, hcolumn⟩
    · rw [← hgaps] at hc
      have houtcome : Outcome name c cs fresh next :=
        outcome_of_token? hfresh hc (hsuffix.length_le.trans hline) htoken
      cases houtcome with
      | awaits hnext hmore =>
        obtain ⟨more, hmore, hsuffix'⟩ := hmore
        have hshorter := hsuffix'.trans hsuffix
        have hrun' := hgoes (by rw [hmore]; simp)
        refine (ih hnext hmore (hshorter.length_le.trans hline) hrun').imp_right ?_
        exact And.imp_left fun hend => hend.trans hshorter
      | settled hsettled => exact absurd hnames (not_names_of_settled hspots hsettled hgrows hfinal)
      | plain hstarts hplain hname =>
        rw [hname]
        exact .inr ⟨hsuffix, hstarts, hplain⟩
      | crossed hcrosses =>
        have hrun' := hgoes (by rw [hcrosses.rest]; simp)
        cases fuel with
        | zero => cases hrun'
        | succ fuel =>
          obtain ⟨after, hstep', hafter'⟩ := run?_succ hrun'
          have hgrows' : Grows after final :=
            hafter'.elim (fun h => grows_finish? h.2) grows_run?
          exact absurd hnames (hcrosses.not_names hfresh hstep' hgrows' hfinal)
    · rw [← hgaps] at hversion hcolumn
      by_cases hname : name = "version"
      · exact .inl hname
      · have htokens := tokens_of_version hfresh hversion hcolumn htoken
        have hrefutes : refutes name [.scalar .plain "version"] = true := by
          simpa [refutes, isProperty] using Ne.symm hname
        have hsettled := hfresh.refutes_of_tokens hrefutes
          (htokens.trans (List.nil_append _).symm)
        exact absurd hnames (not_names_of_settled hspots hsettled hgrows hfinal)

end Run

/-! ## Names that are read back -/

theorem readText_eq {name : String} {text : List Char} (h : readText (config name) = some text) :
    name.toList.all isAllowed = true ∧ ∃ line,
      text = '#' :: (headComment.toList ++ '\n' ::
        ("name".toList ++ ':' :: ' ' :: (line ++ '\n' :: versionLines))) ∧
      line.length ≤ name.toList.length ∧ ∀ c ∈ line, c ≠ '\r' ∧ c ≠ '\u0085' := by
  rw [readText, Option.ite_none_right_eq_some] at h
  obtain ⟨hallowed, htext⟩ := h
  cases htext
  have hconfig : (config name).toList = ('#' :: (headComment.toList ++ '\n' ::
      ("name".toList ++ [':', ' ']))) ++ (name.toList ++ '\n' :: versionLines) := by
    rw [toList_config]
    simp only [List.cons_append, List.append_assoc, List.nil_append]
  obtain ⟨line, hline, hlength, hother⟩ := unifyBreaks_newline name.toList versionLines
  rw [unifyBreaks_of_isKept all_isKept_versionLines] at hline
  refine ⟨?_, line, ?_, hlength, hother⟩
  · rw [hconfig, List.all_append, List.all_append, Bool.and_eq_true, Bool.and_eq_true] at hallowed
    exact hallowed.2.1
  · rw [hconfig, unifyBreaks_append (by decide), hline]
    simp only [List.cons_append, List.append_assoc, List.nil_append]

theorem outlasts_headTokens : Outlasts (4 ≤ ·) fun tokens => ∃ rest, tokens = headTokens ++ rest where
  append := by
    rintro tokens more ⟨rest, rfl⟩
    exact ⟨rest ++ more, List.append_assoc _ _ _⟩
  insert := by
    rintro front back token hspot - ⟨rest, hrest⟩
    obtain ⟨more, rfl, -⟩ := split_of_length_le hrest hspot
    exact ⟨more ++ token :: back, List.append_assoc _ _ _⟩

/-- The run behind the key of the name. -/
theorem run?_of_tokens? {line : List Char} {tokens : List Token}
    (h : tokens? ('#' :: (headComment.toList ++ '\n' ::
      ("name".toList ++ ':' :: ' ' :: (line ++ '\n' :: versionLines)))) = some tokens) :
    ∃ lexer fuel final rest, Awaits lexer ∧ lexer.cursor.rest = line ++ '\n' :: versionLines ∧
      run? fuel lexer = some final ∧ final.tokens.reverse = tokens ∧ tokens = headTokens ++ rest := by
  obtain ⟨final, hrun, htokens⟩ := Option.map_eq_some_iff.mp h
  obtain ⟨place, hhead⟩ := run?_headText (line ++ '\n' :: versionLines)
  rw [List.length_cons, hhead, run?_congr (skipGaps_blank _ _ _ _ _ _)] at hrun
  have hawaits : Awaits (inBlock (place.after ' ') (line ++ '\n' :: versionLines)
      headTokens.reverse [0] none false) := ⟨rfl, rfl, rfl, nofun, [], nofun, rfl⟩
  obtain ⟨-, rest, hrest⟩ := grows_run? hrun _ _ outlasts_headTokens hawaits.spots ⟨[], rfl⟩
  exact ⟨_, _, final, rest, hawaits, rfl, hrun, htokens, htokens.symm.trans hrest⟩

theorem read_of_ofText {base text : String} {project : Config}
    (h : Config.ofText base text = .ok project) :
    Yaml.read ProjectSettings.read? text = some project.settings := by
  unfold Config.ofText at h
  split at h
  · cases h
  · rename_i settings hread
    split at h
    · cases h
      exact hread
    · cases h

/-- A name that is read back is empty or a plain scalar on one line. -/
theorem isPlainName_of_ofText {base name : String} {project : Config}
    (h : Config.ofText base (config name) = .ok project) (hname : project.settings.name = name) :
    isPlainName name = true := by
  obtain ⟨root, hdocument, hsettings⟩ := Option.bind_eq_some_iff.mp (read_of_ofText h)
  simp only [document?, Option.bind_eq_bind, Option.bind_eq_some_iff] at hdocument
  obtain ⟨text, htext, tokens, htokens, hroot⟩ := hdocument
  obtain ⟨hallowed, line, rfl, hlength, hother⟩ := readText_eq htext
  obtain ⟨lexer, fuel, final, rest, hawaits, hrest, hrun, hfinal, rfl⟩ := run?_of_tokens? htokens
  have hread := names_of_read hroot hsettings
  rw [hname] at hread
  rcases hread with rfl | hnames
  · rfl
  · rcases suffix_of_names hawaits hrest hlength hrun hfinal hnames with
      rfl | ⟨hsuffix, hstarts, hplain⟩
    · decide
    · have hline : name.toList = line := hsuffix.eq_of_length_le hlength
      have hkept : name.toList.all isKept = true := by
        rw [List.all_eq_true] at hallowed ⊢
        intro c hc
        obtain ⟨hreturn, hnext⟩ := hother c (hline ▸ hc)
        simp [isKept, hallowed c hc, hreturn, hnext]
      simp [isPlainName, hkept, hstarts, hplain]

/-- A configuration is read back with the name it was made for if and only if the name is empty or a
plain scalar on one line. -/
theorem ofText_config_iff {base name : String} :
    (∃ project, Config.ofText base (config name) = .ok project ∧ project.settings.name = name) ↔
      isPlainName name = true := by
  constructor
  · rintro ⟨project, hproject, hname⟩
    exact isPlainName_of_ofText hproject hname
  · intro hname
    exact ⟨_, ofText_config hname base, rfl⟩

end Starter
end ScoringTree
