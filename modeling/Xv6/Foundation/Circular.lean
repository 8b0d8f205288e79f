import Mathlib.Data.List.Chain
import Mathlib.Data.List.Nodup
import Mathlib.Data.Option.Basic
import Mathlib.Logic.Function.Basic

/-!
# Circular doubly linked lists

A list is kept by two functions, the next and the previous node of each.  Its
nodes are the elements and one more, the head, at which it starts and ends.
-/

namespace Foundation
namespace Circular

open List Function

/-- The pointers of the head (`none`) and of the elements. -/
structure Links (Element : Type) where
  next : Option Element → Option Element
  prev : Option Element → Option Element

variable {Element : Type}

/-- The elements met when a pointer is followed up to the head, for at most
`fuel` of them. -/
def follow (pointer : Option Element → Option Element) : Nat → Option Element → List Element
  | 0, _ => []
  | _ + 1, none => []
  | fuel + 1, some element => element :: follow pointer fuel (pointer (some element))

namespace Links

/-- One node comes right after the other. -/
def Adjacent (links : Links Element) (first second : Option Element) : Prop :=
  links.next first = second ∧ links.prev second = first

/-- The elements in order, each once. -/
def Represents (links : Links Element) (order : List Element) : Prop :=
  order.Nodup ∧ List.IsChain links.Adjacent (none :: order.map some ++ [none])

/-- The list read backwards. -/
def flip (links : Links Element) : Links Element :=
  ⟨links.prev, links.next⟩

variable {links : Links Element}

section Reading

variable {order : List Element} {fuel : Nat}

theorem follow_next_of_chain {first : Option Element}
    (chain : List.IsChain links.Adjacent (first :: order.map some ++ [none]))
    (enough : order.length ≤ fuel) : follow links.next fuel (links.next first) = order := by
  induction order generalizing first fuel with
  | nil =>
    have last : links.Adjacent first none := by simpa using chain
    rw [last.1]
    cases fuel <;> rfl
  | cons element order ih =>
    obtain ⟨fuel, rfl⟩ : ∃ rest, fuel = rest + 1 :=
      Nat.exists_eq_add_of_le' (Nat.one_le_iff_ne_zero.mpr (by
        rintro rfl
        exact absurd enough (by simp)))
    simp only [map_cons, cons_append, isChain_cons_cons] at chain
    rw [chain.1.1, follow, ih chain.2 (Nat.le_of_succ_le_succ enough)]

/-- Following the next pointers from the head gives the elements in order. -/
theorem Represents.follow_next
    (represents : links.Represents order) (enough : order.length ≤ fuel) :
    follow links.next fuel (links.next none) = order :=
  follow_next_of_chain represents.2 enough

theorem Represents.flip (represents : links.Represents order) :
    links.flip.Represents order.reverse := by
  refine ⟨nodup_reverse.mpr represents.1, ?_⟩
  have chain : List.IsChain (fun first second => links.flip.Adjacent second first)
      (none :: order.map some ++ [none]) :=
    represents.2.imp fun _ _ adjacent => adjacent.symm
  have reversed := isChain_reverse.mpr chain
  simpa only [reverse_append, reverse_cons, reverse_nil,
    nil_append, cons_append, map_reverse] using reversed

/-- Following the previous pointers gives them in the opposite order. -/
theorem Represents.follow_prev
    (represents : links.Represents order) (enough : order.length ≤ fuel) :
    follow links.prev fuel (links.prev none) = order.reverse :=
  represents.flip.follow_next (by simpa using enough)

/-- A change of pointers that the list does not use. -/
theorem chain_congr {changed : Links Element} {nodes : List (Option Element)}
    (chain : List.IsChain links.Adjacent nodes)
    (next : ∀ node ∈ nodes.dropLast, changed.next node = links.next node)
    (prev : ∀ node ∈ nodes.tail, changed.prev node = links.prev node) :
    List.IsChain changed.Adjacent nodes := by
  induction nodes with
  | nil => exact .nil
  | cons first nodes ih =>
    cases nodes with
    | nil => exact .singleton first
    | cons second nodes =>
      rw [isChain_cons_cons] at chain ⊢
      refine ⟨⟨?_, ?_⟩, ih chain.2 ?_ ?_⟩
      · rw [next first (by simp), chain.1.1]
      · rw [prev second (by simp), chain.1.2]
      · intro node member
        exact next node (by simp [member])
      · intro node member
        exact prev node (by simp [mem_of_mem_tail member])

end Reading

variable {element : Element} {elements : List Element}

theorem some_not_mem_map (absent : element ∉ elements) : some element ∉ elements.map some :=
  (mem_map_of_injective (Option.some_injective Element)).not.mpr absent

theorem some_not_mem_nodes
    (absent : element ∉ elements) : some element ∉ elements.map some ++ [none] := by
  intro member
  rcases mem_append.mp member with here | there
  · exact some_not_mem_map absent here
  · cases mem_singleton.mp there

theorem dropLast_nodes (first : Element) (back : List Element) :
    (some first :: (back.map some ++ [none])).dropLast = (first :: back).map some := by
  rw [← cons_append, dropLast_concat]
  rfl

variable [DecidableEq Element]

/-- Change the next pointer of a node. -/
def setNext (links : Links Element) (node target : Option Element) : Links Element :=
  { links with next := Function.update links.next node target }

/-- Change the previous pointer of a node. -/
def setPrev (links : Links Element) (node target : Option Element) : Links Element :=
  { links with prev := Function.update links.prev node target }

/-- Take an element out of the list. -/
def unlink (links : Links Element) (element : Element) : Links Element :=
  let links := links.setPrev (links.next (some element))
    (links.prev (some element))
  links.setNext (links.prev (some element)) (links.next (some element))

/-- Put an element in right after the head. -/
def pushFront (links : Links Element) (element : Element) : Links Element :=
  let links := links.setNext (some element) (links.next none)
  let links := links.setPrev (some element) none
  let links := links.setPrev (links.next none) (some element)
  links.setNext none (some element)

section Changing

/-- Taking an element out joins its neighbours. -/
theorem chain_unlink (front back : List (Option Element)) (before after : Option Element)
    (chain : List.IsChain links.Adjacent (front ++ before :: some element :: after :: back))
    (beforeFront : before ∉ front) (afterFront : after ∉ (front ++ [before]).tail)
    (beforeBack : before ∉ (after :: back).dropLast) (afterBack : after ∉ back) :
    List.IsChain (links.unlink element).Adjacent (front ++ before :: after :: back) := by
  rw [isChain_append_cons_cons] at chain ⊢
  rw [isChain_cons_cons] at chain
  obtain ⟨first, ⟨next, prev⟩, ⟨nextAfter, prevAfter⟩, second⟩ := chain
  have nextChange : (links.unlink element).next = update links.next before after := by
    have target : (links.setPrev (links.next (some element))
        (links.prev (some element))).prev (some element) = before := by
      simp only [setPrev, prev]
      by_cases same : some element = links.next (some element)
      · rw [← same, update_self]
      · rw [update_of_ne same, prev]
    simp only [unlink, setNext, target]
    rw [← nextAfter]
    rfl
  have prevChange : (links.unlink element).prev = update links.prev after before := by
    simp only [unlink, setNext, setPrev, prev, nextAfter]
  refine ⟨chain_congr first ?_ ?_, ⟨?_, ?_⟩, chain_congr second ?_ ?_⟩
  · intro node member
    rw [dropLast_concat] at member
    rw [nextChange, update_of_ne]
    rintro rfl
    exact beforeFront member
  · intro node member
    rw [prevChange, update_of_ne]
    rintro rfl
    exact afterFront member
  · rw [nextChange, update_self]
  · rw [prevChange, update_self]
  · intro node member
    rw [nextChange, update_of_ne]
    rintro rfl
    exact beforeBack member
  · intro node member
    rw [prevChange, update_of_ne]
    rintro rfl
    exact afterBack member

/-- Taking an element out of the list. -/
theorem Represents.unlink {front back : List Element}
    (represents : links.Represents (front ++ element :: back)) :
    (links.unlink element).Represents (front ++ back) := by
  obtain ⟨nodup, chain⟩ := represents
  obtain ⟨nodupFront, nodupRest, apart⟩ := nodup_append.mp nodup
  obtain ⟨-, nodupBack⟩ := nodup_cons.mp nodupRest
  have apart' : ∀ first ∈ front, first ∉ back := fun first here there =>
    apart first here first (mem_cons_of_mem _ there) rfl
  refine ⟨nodup_append.mpr ⟨nodupFront, nodupBack, ?_⟩, ?_⟩
  · rintro first here second there rfl
    exact apart' first here there
  -- the neighbours are elements, or the head at either end
  rcases eq_nil_or_concat front with rfl | ⟨front, last, rfl⟩
  · cases back with
    | nil =>
      have joined : List.IsChain (links.unlink element).Adjacent ([] ++ none :: none :: []) :=
        chain_unlink [] [] none none (by simpa using chain) (by simp) (by simp) (by simp) (by simp)
      simpa using joined
    | cons first back =>
      have firstBack := (nodup_cons.mp nodupBack).1
      have joined : List.IsChain (links.unlink element).Adjacent
          ([] ++ none :: some first :: (back.map some ++ [none])) := by
        refine chain_unlink [] _ none (some first) (by simpa using chain)
          (by simp) (by simp) ?_ (some_not_mem_nodes firstBack)
        rw [dropLast_nodes]
        simp
      simpa using joined
  · rw [concat_eq_append] at chain nodupFront apart' ⊢
    have lastFront : last ∉ front := fun here =>
      (nodup_append.mp nodupFront).2.2 last here last (mem_singleton_self last) rfl
    have lastBack := apart' last (mem_append_right _ (mem_singleton_self last))
    have beforeFront : some last ∉ none :: front.map some := by
      intro member
      cases mem_cons.mp member with
      | inl isHead => cases isHead
      | inr here => exact some_not_mem_map lastFront here
    cases back with
    | nil =>
      have joined : List.IsChain (links.unlink element).Adjacent
          ((none :: front.map some) ++ some last :: none :: []) :=
        chain_unlink _ [] (some last) none (by simpa using chain)
          beforeFront (by simp) (by simp) (by simp)
      simpa using joined
    | cons first back =>
      have firstFront : first ∉ front ++ [last] := fun here =>
        apart' first here mem_cons_self
      have firstBack := (nodup_cons.mp nodupBack).1
      have joined : List.IsChain (links.unlink element).Adjacent
          ((none :: front.map some) ++ some last :: some first :: (back.map some ++ [none])) := by
        refine chain_unlink _ _ (some last) (some first) (by simpa using chain) beforeFront ?_ ?_
          (some_not_mem_nodes firstBack)
        · have after := some_not_mem_map firstFront
          rw [map_append] at after
          exact after
        · rw [dropLast_nodes]
          exact some_not_mem_map lastBack
      simpa using joined

/-- Putting an element in. -/
theorem Represents.pushFront {order : List Element}
    (represents : links.Represents order) (fresh : element ∉ order) :
    (links.pushFront element).Represents (element :: order) := by
  refine ⟨nodup_cons.mpr ⟨fresh, represents.1⟩, ?_⟩
  obtain ⟨nodup, chain⟩ := represents
  obtain ⟨first, rest, same⟩ : ∃ first rest, order.map some ++ [none] = first :: rest :=
    exists_cons_of_ne_nil (by simp)
  have nodupNodes : (first :: rest).Nodup := by
    rw [← same]
    refine nodup_append.mpr ⟨nodup.map (Option.some_injective _), nodup_singleton _, ?_⟩
    simp
  have apart : first ≠ some element := by
    rintro rfl
    have member : some element ∈ order.map some ++ [none] := by
      rw [same]
      exact mem_cons_self
    simp [fresh] at member
  rw [cons_append, same, isChain_cons_cons] at chain
  rw [map_cons, cons_append, cons_append, same, isChain_cons_cons, isChain_cons_cons]
  have next : (links.pushFront element).next = update (update links.next (some element) first) none
        (some element) := by
    simp only [Links.pushFront, setNext, setPrev, chain.1.1]
  have prev : (links.pushFront element).prev = update (update links.prev (some element) none) first
        (some element) := by
    simp only [Links.pushFront, setNext, setPrev, chain.1.1]
    rw [update_of_ne (by simp), chain.1.1]
  refine ⟨⟨?_, ?_⟩, ⟨?_, ?_⟩, chain_congr chain.2 ?_ ?_⟩
  · rw [next, update_self]
  · rw [prev, update_of_ne apart.symm, update_self]
  · rw [next, update_of_ne (by simp), update_self]
  · rw [prev, update_self]
  · intro node member
    rw [← same, dropLast_concat] at member
    obtain ⟨other, here, rfl⟩ := mem_map.mp member
    rw [next, update_of_ne (by simp), update_of_ne]
    intro equal
    exact fresh (Option.some.inj equal ▸ here)
  · intro node member
    rw [prev, update_of_ne, update_of_ne]
    · rintro rfl
      have inside : some element ∈ order.map some ++ [none] := by
        rw [same]
        exact mem_cons_of_mem _ member
      simp [fresh] at inside
    · rintro rfl
      exact (nodup_cons.mp nodupNodes).1 member

end Changing

end Links
end Circular
end Foundation
