import Mathlib

/-!
# Forests of parent links

A finite set of nodes in which every node is a root or has a parent that is one nearer to a root.
The links from a node up to its root are then a finite chain, and a preorder that every link respects
holds between a node and all its ancestors.
-/

namespace Bulldog.Forest

variable {α : Type} {xs : List α} {link : α → α → Prop} {root : α → Prop} {depth : α → ℕ}

/-- Every node is a root, at depth zero, or one link below another node. -/
structure Rooted (xs : List α) (link : α → α → Prop) (root : α → Prop) (depth : α → ℕ) : Prop where
  up : ∀ x ∈ xs, (root x ∧ depth x = 0) ∨ ∃ p ∈ xs, link x p ∧ depth x = depth p + 1

/-- The chain of a node: its ancestors from the parent on, up to a root. -/
structure Chain (xs : List α) (link : α → α → Prop) (root : α → Prop) (x : α)
    (ancestors : List α) : Prop where
  mem : ∀ a ∈ ancestors, a ∈ xs
  links : (x :: ancestors).IsChain link
  last : root ((x :: ancestors).getLast (List.cons_ne_nil x ancestors))

/-- Every node has a chain, as long as it is deep. -/
theorem Rooted.exists_chain (h : Rooted xs link root depth) {x : α} (hx : x ∈ xs) :
    ∃ ancestors, Chain xs link root x ancestors ∧ ancestors.length = depth x := by
  induction hn : depth x generalizing x with
  | zero =>
    rcases h.up x hx with ⟨hroot, -⟩ | ⟨p, -, -, hdepth⟩
    · exact ⟨[], ⟨nofun, .singleton x, hroot⟩, rfl⟩
    · omega
  | succ n ih =>
    rcases h.up x hx with ⟨-, hdepth⟩ | ⟨p, hp, hlink, hdepth⟩
    · omega
    · obtain ⟨ancestors, hchain, hlen⟩ := ih hp (by omega)
      refine ⟨p :: ancestors, ⟨?_, ?_, ?_⟩, by rw [List.length_cons, hlen]⟩
      · exact fun a ha => (List.mem_cons.1 ha).elim (fun h => h ▸ hp) (hchain.mem a)
      · exact .cons_cons hlink hchain.links
      · rw [List.getLast_cons (List.cons_ne_nil p ancestors)]
        exact hchain.last

/-- What every link respects holds of a node and its ancestors. -/
theorem Chain.forall_of_links {r : α → α → Prop} [IsTrans α r] {x : α} {ancestors : List α}
    (h : Chain xs link root x ancestors) (hr : ∀ c p, link c p → r c p) :
    ∀ a ∈ ancestors, r x a :=
  (List.pairwise_cons.1 (List.isChain_iff_pairwise.1 (h.links.imp hr))).1

end Bulldog.Forest
