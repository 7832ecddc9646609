/-
How whole trees are built over tokens.

To what grows over tokens a whole tree adds little: blocks, which cover their tokens like other
nodes, skipped stretches, which are leaves over the tokens they skip, comments, which are made of
no tokens, and the members of a struct, which are put in order afterwards.

* `Builds` — the ways in which the nodes of a tree are made of tokens and comments;
* `Stmt.MadeOf.builds`, `Definition.MadeOf.builds` — whatever is made of tokens is built in these
  ways;
* `parseSource_builds` — so is the tree of every text, over all of its tokens.

A fact about all nodes of all trees is then one induction over `Builds`, with a case for each way
to make a node and none for a production.
-/
import FrontEnd.Proofs.Grammar.Making

namespace FrontEnd

variable {α : Type} {C : Comment → Prop}

/-- The ways in which the nodes of a tree are made of tokens, and of comments that `C` holds
of. -/
inductive Builds (C : Comment → Prop) : List Token → List Node → Prop
  | grows {ts : List Token} {ns : List Node} (h : Grows ts ns) : Builds C ts ns
  | append {ts us : List Token} {ns ms : List Node} (h : Builds C ts ns) (h' : Builds C us ms) :
    Builds C (ts ++ us) (ns ++ ms)
  /-- A node that covers its tokens, around the nodes they are made into. -/
  | cover {ts : List Token} {n : Node} (h : Builds C ts n.children) (hne : ts ≠ [])
    (hspan : n.span = covering ts) (hkind : n.kind = .block ∧ n.text = none ∨ n.isCompound) :
    Builds C ts [n]
  /-- A skipped stretch. -/
  | skipped {ts : List Token} (hne : ts ≠ []) : Builds C ts [errorNode (covering ts)]
  | comments {cs : List Comment} (h : ∀ c ∈ cs, C c) : Builds C [] (cs.map (·.toNode))
  | labelled {ts : List Token} {n : Node} (h : Builds C ts [n]) (label : Label) :
    Builds C ts [n.labelled label]
  /-- Nodes in another order. -/
  | perm {ts : List Token} {ns ms : List Node} (h : Builds C ts ns) (hperm : ns.Perm ms) :
    Builds C ts ms

namespace Builds

variable {t : Token} {k : Kind} {ts us : List Token} {ns : List Node}

theorem nil : Builds C [] [] := .grows .nil

theorem mark (ht : t.kind = k) (hk : k.isMark) : Builds C [t] [] := .grows (.mark ht hk)

/-- A token that no node is made of, before nodes. -/
theorem token (ht : t.kind = k) (hk : k.isMark) (h : Builds C ts ns) : Builds C (t :: ts) ns :=
  (mark ht hk).append h

theorem tokens_behind (h : Builds C ts ns) (hus : Grows us []) : Builds C (ts ++ us) ns := by
  have hboth := h.append (.grows hus)
  rwa [List.append_nil] at hboth

theorem comment {c : Comment} (h : C c) : Builds C [] [c.toNode] := by
  have hone : ∀ d ∈ [c], C d := by simpa using h
  exact comments hone

theorem each {V : α → List Token → Prop} {view : α → Node} {as : List α} (h : Each V as ts)
    (hv : ∀ a ∈ as, ∀ us, V a us → Builds C us [view a]) : Builds C ts (as.map view) := by
  induction h with
  | nil => exact .nil
  | @cons a us as vs ha _ ih =>
    exact .append (hv a (by simp) us ha) (ih fun b hb => hv b (by simp [hb]))

end Builds

/-! ### Statements -/

mutual

theorem Stmt.MadeOf.builds {stmt : Stmt} {ts : List Token} (h : stmt.MadeOf C ts) :
    Builds C ts [stmt.toNode] := by
  cases h with
  | flat hspelled hflat => exact .grows (hspelled.covered hflat).grows
  | conditional hword hcondition hif helse =>
    cases helse with
    | none =>
      rw [Stmt.toNode]
      refine .cover (.token hword rfl (.append (.grows hcondition.grows) ?_)) (by simp) rfl
        (.inr rfl)
      exact (hif.builds.labelled _).tokens_behind .nil
    | some hbehind =>
      obtain ⟨hmark, helse⟩ := hbehind
      rw [Stmt.toNode]
      refine .cover (.token hword rfl (.append (.grows hcondition.grows) ?_)) (by simp) rfl
        (.inr rfl)
      exact .append (hif.builds.labelled _) (.token hmark rfl (helse.builds.labelled _))
  | whileLoop hword hcondition hbody =>
    rw [Stmt.toNode]
    refine .cover (.token hword rfl ?_) (by simp) rfl (.inr rfl)
    exact .append (.grows hcondition.grows) hbody.builds
  | forLoop binding hword hlet hinside hiterable hbody =>
    rw [Stmt.toNode]
    refine .cover (.token hword rfl (.append (.grows (hlet.grows rfl)) ?_)) (by simp) rfl
      (.inr rfl)
    refine .append (.grows binding.grows) (.token hinside rfl ?_)
    exact .append (.grows hiterable.grows) hbody.builds
  | skipped hne =>
    rw [Stmt.toNode]
    exact .skipped hne
  | comment hc =>
    rw [Stmt.toNode]
    exact .comment hc
termination_by sizeOf stmt

theorem Block.MadeOf.builds {b : Block} {ts : List Token} (h : b.MadeOf C ts) :
    Builds C ts [b.toNode] := by
  cases h with
  | mk ho hstatements hclosing =>
    rw [Block.toNode, Stmt.toNodes_eq_map]
    refine .cover (.token ho rfl (.tokens_behind ?_ (hclosing.grows rfl))) (by simp) rfl
      (.inl ⟨rfl, rfl⟩)
    exact .each hstatements fun _ _ _ hstmt => hstmt.builds
termination_by sizeOf b

end

/-! ### Definitions -/

theorem FunctionDef.MadeOf.builds {f : FunctionDef} {ts : List Token} (h : f.MadeOf C ts) :
    Builds C ts [f.toNode] := by
  cases h with
  | @mk name word generic gs parameters ps returnType rs body bs hword hgeneric hparameters
      hreturn hbody =>
    have hparts : Builds C (name.token :: (gs ++ (ps ++ (rs ++ bs))))
        (name.toNode.labelled .name :: (genericNodes generic ++ (parameters.map (·.toNode) ++
          (returnTypeNodes returnType ++ [body.toNode.labelled .funcBlock])))) :=
      .append (.grows (name.grows.labelled _)) (.append (.grows (grows_genericNodes hgeneric))
        (.append (.grows hparameters.grows)
          (.append (.grows hreturn.grows) (hbody.builds.labelled _))))
    refine .cover ?_ (by simp) rfl (.inr rfl)
    simpa [FunctionDef.toNode] using hparts.token hword rfl

theorem StructDef.MadeOf.builds {d : StructDef} {ts : List Token} (h : d.MadeOf C ts) :
    Builds C ts [d.toNode] := by
  cases h with
  | @mk name comments word o c generic gs fields fs methods ms hword hgeneric ho hfields hmethods
      hc hcomments =>
    have hmembers : Builds C (fs ++ (ms ++ []))
        (fields.map (·.toNode) ++ (methods.map (·.toNode) ++ comments.map (·.toNode))) :=
      .append (.each hfields fun _ _ _ hfield => .grows hfield.grows)
        (.append (.each hmethods fun _ _ _ hmethod => hmethod.builds) (.comments hcomments))
    have hsorted := hmembers.perm (List.mergeSort_perm _
      fun a b => decide (a.span.start.offset ≤ b.span.start.offset)).symm
    refine .cover (.token hword rfl ?_) (by simp) rfl (.inr rfl)
    refine .append (.grows (name.grows.labelled _)) ?_
    refine .append (.grows (grows_genericNodes hgeneric)) (.token ho rfl ?_)
    simpa using hsorted.tokens_behind (.mark hc rfl)

theorem Definition.MadeOf.builds {d : Definition} {ts : List Token} (h : d.MadeOf C ts) :
    Builds C ts [d.toNode] := by
  cases h with
  | function hf => exact hf.builds
  | external hf => exact .grows hf.covered.grows
  | struct hd => exact hd.builds
  | use hu => exact .grows hu.covered.grows
  | skipped hne => exact .skipped hne
  | comment hc => exact .comment hc

/-- The tree of every text is built over all tokens of the text. -/
theorem parseSource_builds (source : String) :
    Builds (startOf source).Holds (startOf source).rest
      (parseSource source).file.toNode.children := by
  obtain ⟨hmade, -⟩ := parseSource_made source
  exact .each hmade fun _ _ _ hd => hd.builds

end FrontEnd
