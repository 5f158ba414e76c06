import DesignTokens.Proofs.Evaluation.Agreement
import DesignTokens.Proofs.Evaluation.Reference
import DesignTokens.Proofs.Tokens.Faults
import DesignTokens.Proofs.Tree.Locations

set_option autoImplicit false

/-! # References to tokens

In the tree of a document with plain keys, a reference to the path of a token is worth the
token (`evaluate_referenceTo`). The path is read as one reference, the reference leads back
to the text of the token, and the table built for the reference holds what the token leads
to with the values that the token set has (`TokenSet.get?_eq_of_reaches`).
-/

namespace DesignTokens

namespace TokenSet

variable {tree : TokenTree} {formatters : FormatterRegistry} {tokens : TokenSet}
  {value : PlacedValue} {path : String} {table : LookupTable}

/-- What a reference to a value needs is answered, if the tree of the value loads. -/
theorem exists_build_referenceTo (hload : (load tree formatters).result = .ok tokens)
    (hraw : tree.rawValue? path = some value.text) :
    ∃ table, (LookupTable.build [.ofReference (referenceTo path)] tree.source).outcome.result =
      .ok table := by
  obtain ⟨expressions, loaded, hflatten, -, -⟩ := result_load_eq_ok_iff.mp hload
  have hfault := exists_load_iff.mp ⟨tokens, hload⟩
  refine LookupTable.exists_build_iff.mpr fun r hneeds => ?_
  cases hneeds with
  | own he hr =>
      rw [List.mem_singleton.mp he, Expression.references_ofReference,
        List.mem_singleton] at hr
      rw [hr, TokenTree.isAnswered_iff hflatten, stripBraces_referenceTo]
      exact ⟨_, hraw⟩
  | nested _ hanswer hparse hr =>
      -- whatever is found further down is a reference of the tree itself
      obtain ⟨other, hother, hr⟩ :=
        TokenTree.mem_references_iff.mp (TokenTree.mem_references_of_answer hanswer hparse hr)
      rw [TokenTree.isAnswered_iff hflatten]
      exact (TokenTree.fault?_eq_none_iff.mp hfault other hother).2 r hr

/-- The table for a reference to a value needs what the value leads to. -/
theorem needs_of_reaches (hload : (load tree formatters).result = .ok tokens)
    (hvalue : value ∈ tree.values "") (hraw : tree.rawValue? path = some value.text) {r : String}
    (hr : tokens.table.Reaches value.expression.toExpression r) :
    tree.source.Needs [.ofReference (referenceTo path)] r := by
  have hclosed : tokens.table.IsClosed
      (tree.source.Needs [.ofReference (referenceTo path)]) := by
    rintro r r' hneeds ⟨raw, e, hget, hparse, hmem⟩
    exact .nested hneeds ((get?_eq_some_iff_of_load hload).mp hget).2 hparse hmem
  have hanswer : tree.source.Answers (stripBraces (referenceTo path)) value.text := by
    rw [stripBraces_referenceTo]
    exact hraw
  refine hclosed.of_reaches (fun first hfirst => ?_) hr
  exact .nested (.own List.mem_cons_self List.mem_cons_self) hanswer
    (parse_of_load hload hvalue) hfirst

/-- The table for a reference to a value holds what the value leads to, with the values that
the token set has. -/
theorem get?_eq_of_reaches (hload : (load tree formatters).result = .ok tokens)
    (hvalue : value ∈ tree.values "") (hraw : tree.rawValue? path = some value.text)
    (hbuild : (LookupTable.build [.ofReference (referenceTo path)]
      tree.source).outcome.result = .ok table) {r : String}
    (hr : tokens.table.Reaches value.expression.toExpression r) :
    tokens.table.get? r = table.get? r := by
  have he : value.expression ∈ tokens.expressions := by
    rw [expressions_of_load hload]
    exact List.mem_map_of_mem hvalue
  obtain ⟨raw, -, hget, -⟩ := isReadable_of_load hload he hr
  have hneeds := needs_of_reaches hload hvalue hraw hr
  have hanswer := ((get?_eq_some_iff_of_load hload).mp hget).2
  rw [hget, (LookupTable.get?_eq_some_iff hbuild).mpr ⟨hneeds, hanswer⟩]

end TokenSet

/-- Every reference of a tree ranks above those in the value it stands for. -/
def TokenTree.isRankedBy (tree : TokenTree) (rank : String → Nat) : Bool :=
  tree.references.all fun r => (tree.rawValue? (stripBraces r)).all fun raw =>
    (referencesIn raw).all fun r' => rank r' < rank r

/-- The table of a tree whose references can be ranked is ranked alike. -/
theorem TokenSet.isRankedBy_of_load {tree : TokenTree} {formatters : FormatterRegistry}
    {tokens : TokenSet} (hload : (load tree formatters).result = .ok tokens) {rank : String → Nat}
    (hrank : tree.isRankedBy rank = true) : tokens.table.IsRankedBy rank = true := by
  obtain ⟨expressions, table, hflatten, htable, rfl⟩ := result_load_eq_ok_iff.mp hload
  refine List.all_eq_true.mpr fun entry hentry => ?_
  obtain ⟨hneeds, hanswer⟩ := (LookupTable.mem_entries_iff htable).mp hentry
  have hraw : tree.rawValue? (stripBraces entry.1) = some entry.2 := hanswer
  have hall := List.all_eq_true.mp hrank entry.1 ((TokenTree.needs_iff hflatten).mp hneeds)
  rwa [hraw, Option.all_some] at hall

/-- **A reference to a token is worth exactly the token.** Take a document without repeated
keys whose keys are plain and whose tree loads, and an expression of it that leads to no
cycle and to no chain as long as the limit. Its path in braces, and for a scalar token also
the path without `.value`, is read as a single reference. A table can be built for the
reference, and with it the reference has the result that the expression has in the token
set, be it a value or an error. -/
theorem evaluate_referenceTo {document : Json} {tree : TokenTree} {tokens : TokenSet}
    {e : TokenExpression} {path : String} (hdocument : document.IsProper)
    (htree : (TokenTree.ofJson document).result = .ok tree)
    (hkeys : tree.allKeys isPlainKey = true)
    (hload : (TokenSet.load tree .standard).result = .ok tokens) (he : e ∈ tokens.expressions)
    (hacyclic : tokens.table.IsAcyclicBelow e.toExpression)
    (hshort : ∀ chain, tokens.table.IsChainFrom e.toExpression chain →
      chain.length < maxReferenceDepth)
    (hnamed : e.IsNamedBy path) :
    Expression.parse (referenceTo path) = .ok (.ofReference (referenceTo path)) ∧
      ∃ table, (LookupTable.build [.ofReference (referenceTo path)]
          tree.source).outcome.result = .ok table ∧
        (evaluate table (.ofReference (referenceTo path))).result =
          (evaluate tokens.table e.toExpression).result := by
  have hproper := TokenTree.isProper_of_ofJson hdocument htree
  rw [TokenSet.expressions_of_load hload] at he
  obtain ⟨value, hvalue, rfl⟩ := List.mem_map.mp he
  obtain ⟨hne, hpath, hraw⟩ := TokenTree.rawValue?_of_isNamedBy hproper hkeys hvalue hnamed
  obtain ⟨table, hbuild⟩ := TokenSet.exists_build_referenceTo hload hraw
  refine ⟨Expression.parse_referenceTo hne hpath, table, hbuild, ?_⟩
  have hget : table.get? (referenceTo path) = some value.text := by
    rw [LookupTable.get?_eq_some_iff hbuild, stripBraces_referenceTo]
    exact ⟨.own List.mem_cons_self List.mem_cons_self, hraw⟩
  -- what the expression leads to is the same in both tables, so one table is enough
  have hagree : ∀ r, tokens.table.Reaches value.expression.toExpression r →
      tokens.table.get? r = table.get? r := fun r hr =>
    TokenSet.get?_eq_of_reaches hload hvalue hraw hbuild hr
  rw [evaluate_of_reaches hagree]
  exact evaluate_ofReference hget (TokenSet.parse_of_load hload hvalue)
    (LookupTable.isAcyclicBelow_of_agree hagree hacyclic)
    fun chain hchain => hshort chain (LookupTable.isChainFrom_of_agree hagree hchain)

/-- A token and a member with the key `value`, and a size that they lead to. -/
def valueKeysDocument : Json :=
  .object [
    ("value", .object [("type", .text "dimension"), ("value", .text "{scale.value.value} * 2")]),
    ("scale", .object [("type", .text "typography"),
      ("value", .object [("value", .text "{base}"), ("#1", .text "bold")])]),
    ("base", .object [("type", .text "dimension"), ("value", .text "4px")])]

/-- The tree of `valueKeysDocument`. -/
def valueKeysTree : TokenTree :=
  .token "value" ⟨.scalar "{scale.value.value} * 2", "dimension"⟩
    (.token "scale" ⟨.composite [("value", "{base}"), ("#1", "bold")], "typography"⟩
      (.token "base" ⟨.scalar "4px", "dimension"⟩ .nil))

theorem isProper_valueKeysDocument : valueKeysDocument.IsProper := by
  simp [valueKeysDocument, HasDistinctKeys]

/-- The value of the token `value`. -/
def doubledValue : PlacedValue := ⟨"{scale.value.value} * 2", "value.value", "dimension", none⟩

theorem evaluate_referenceTo_value :
    valueKeysDocument.IsProper ∧
      (TokenTree.ofJson valueKeysDocument).result = .ok valueKeysTree ∧
      valueKeysTree.allKeys isPlainKey = true ∧
      ∃ tokens, (TokenSet.load valueKeysTree .standard).result = .ok tokens ∧
        doubledValue.expression ∈ tokens.expressions ∧
        tokens.table.IsAcyclicBelow doubledValue.expression.toExpression ∧
        (∀ chain, tokens.table.IsChainFrom doubledValue.expression.toExpression chain →
          chain.length < maxReferenceDepth) ∧
        ∀ path ∈ ["value.value", "value"], doubledValue.expression.IsNamedBy path ∧
          Expression.parse (referenceTo path) = .ok (.ofReference (referenceTo path)) ∧
          ∃ table, (LookupTable.build [.ofReference (referenceTo path)]
              valueKeysTree.source).outcome.result = .ok table ∧
            (evaluate table (.ofReference (referenceTo path))).result =
              (evaluate tokens.table doubledValue.expression.toExpression).result ∧
            (evaluate table (.ofReference (referenceTo path))).result.map Evaluated.display =
              .ok "8px" := by
  have htree : (TokenTree.ofJson valueKeysDocument).result = .ok valueKeysTree := rfl
  have hkeys : valueKeysTree.allKeys isPlainKey = true := by decide +kernel
  have hfault : valueKeysTree.fault? = none := by decide +kernel
  obtain ⟨tokens, hload⟩ := TokenSet.exists_load_of_fault? hfault
  have he : doubledValue.expression ∈ tokens.expressions := by
    rw [TokenSet.expressions_of_load hload]
    exact List.mem_map_of_mem (by decide +kernel)
  -- the member ranks above the size that it refers to
  have hranked := TokenSet.isRankedBy_of_load hload
    (by decide +kernel : valueKeysTree.isRankedBy (fun r => if r = "{base}" then 0 else 1) = true)
  have hacyclic := LookupTable.isAcyclicBelow_of_rank hranked doubledValue.expression.toExpression
  have hshort : ∀ chain, tokens.table.IsChainFrom doubledValue.expression.toExpression chain →
      chain.length < maxReferenceDepth := by
    intro chain hchain
    have hlength := hchain.length_le_of_rank hranked
      (by decide +kernel : ∀ r ∈ doubledValue.expression.references,
        (if r = "{base}" then 0 else 1) < 2)
    exact hlength.trans_lt (by decide)
  have hvalue : (evaluate tokens.table doubledValue.expression.toExpression).result.map
      Evaluated.display = .ok "8px" := by
    rw [TokenSet.evaluate_of_load hload]
    decide +kernel
  refine ⟨isProper_valueKeysDocument, htree, hkeys, tokens, hload, he, hacyclic, hshort, ?_⟩
  intro path hpath
  have hnamed : doubledValue.expression.IsNamedBy path := by
    rcases List.mem_cons.mp hpath with rfl | hpath
    · exact Or.inl rfl
    · rw [List.mem_singleton.mp hpath]
      exact Or.inr ⟨rfl, rfl⟩
  obtain ⟨hparse, table, hbuild, hsame⟩ := evaluate_referenceTo isProper_valueKeysDocument htree
    hkeys hload he hacyclic hshort hnamed
  exact ⟨hnamed, hparse, table, hbuild, hsame, by rw [hsame, hvalue]⟩

end DesignTokens
