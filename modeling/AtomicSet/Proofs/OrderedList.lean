import AtomicSet.OrderedList
import AtomicSet.Proofs.Replay
import AtomicSet.Proofs.Search

/-!
# Ordered lists hold maps

An ordered list that nobody else works on has no marked links between calls. Such a list holds a map
from keys to values, and there is only one list that holds a given map; so to take a change back is
to have the list of before again, link by link.

## Main definitions

* `OrderedList.Holds` — the list holds the map.

## Main results

* `OrderedList.Holds.lists_entries` — the entries of a list list its map.
* `OrderedList.Holds.unique` — only one list holds a map.
* `OrderedList.Holds.get_eq`, `OrderedList.Holds.insert_of_none`, `OrderedList.Holds.remove_of_some`
  and their companions — what the calls do.
-/

namespace AtomicSet

namespace OrderedList

variable {κ υ : Type} [LinearOrder κ]

/-- The list has no marked links, and its links are the entries of the map in ascending order. -/
structure Holds (l : OrderedList κ υ) (m : Contents κ υ) : Prop where
  ascending : Ascending Link.key l.links
  unmarked : ∀ a ∈ l.links, a.marked = false
  mem_iff : ∀ k v, (∃ a ∈ l.links, a.key = k ∧ a.value = v) ↔ m k = some v

namespace Holds

variable {l : OrderedList κ υ} {m : Contents κ υ}

/-- The empty list holds the empty map. -/
theorem fresh : ({} : OrderedList κ υ).Holds Contents.empty where
  ascending := .nil
  unmarked a ha := by cases ha
  mem_iff k v := by simp [Contents.empty]

/-- The map has at the key of a link what the link holds. -/
theorem value_eq (h : l.Holds m) {a : Link κ υ} (ha : a ∈ l.links) {k : κ} (hkey : a.key = k) :
    m k = some a.value :=
  (h.mem_iff k a.value).mp ⟨a, ha, hkey, rfl⟩

/-- Where the map has nothing there is no link. -/
theorem key_ne (h : l.Holds m) {k : κ} (hk : m k = none) : ∀ a ∈ l.links, a.key ≠ k := by
  intro a ha hkey
  rw [h.value_eq ha hkey] at hk
  cases hk

/-- **The entries of a list list its map.** -/
theorem lists_entries (h : l.Holds m) : m.Lists l.entries := by
  have hall : l.links.filter (fun a => !a.marked) = l.links :=
    List.filter_eq_self.mpr fun a ha => by rw [h.unmarked a ha]; rfl
  refine ⟨?_, fun k v => ?_⟩
  · rw [entries, hall, List.pairwise_map]
    exact h.ascending
  · rw [← h.mem_iff, entries, hall]
    simp

/-- **Only one list holds a map.** -/
theorem unique {l' : OrderedList κ υ} (h : l.Holds m) (h' : l'.Holds m) : l = l' := by
  have hirrefl : Std.Irrefl fun a b : Link κ υ => a.key < b.key := ⟨fun a => lt_irrefl a.key⟩
  have hsub : ∀ {l₁ l₂ : OrderedList κ υ}, l₁.Holds m → l₂.Holds m → ∀ a ∈ l₁.links,
      a ∈ l₂.links := by
    intro l₁ l₂ h₁ h₂ a ha
    obtain ⟨b, hb, hkey, hvalue⟩ := (h₂.mem_iff a.key a.value).mpr (h₁.value_eq ha rfl)
    have hmarked := (h₂.unmarked b hb).trans (h₁.unmarked a ha).symm
    obtain ⟨k, v, mark⟩ := a
    obtain ⟨k', v', mark'⟩ := b
    dsimp only at hkey hvalue hmarked
    subst hkey hvalue hmarked
    exact hb
  have hlinks : l.links = l'.links :=
    h.ascending.eq_of_mem_iff h'.ascending fun a => ⟨hsub h h' a, hsub h' h a⟩
  obtain ⟨links⟩ := l
  obtain ⟨links'⟩ := l'
  exact congrArg OrderedList.mk hlinks

/-! ### The search -/

/-- A search changes nothing, for no link is ever marked. -/
theorem chain_locate (h : l.Holds m) (k : κ) : (Link.locate k l.links).chain = l.links :=
  (locate_of_not_marked h.ascending h.unmarked).1

/-- A search hits the link of its key. -/
theorem hit?_eq_some_iff (h : l.Holds m) {k : κ} {a : Link κ υ} :
    (Link.locate k l.links).hit? Link.key k = some a ↔ a ∈ l.links ∧ a.key = k := by
  rw [Link.locate, hit?_locate_eq_some_iff h.ascending,
    (locate_of_not_marked h.ascending h.unmarked).1]

/-- What a search finds is what the map holds. -/
theorem map_hit? (h : l.Holds m) (k : κ) :
    ((Link.locate k l.links).hit? Link.key k).map Link.value = m k := by
  cases hhit : (Link.locate k l.links).hit? Link.key k with
  | some a =>
      obtain ⟨ha, hkey⟩ := h.hit?_eq_some_iff.mp hhit
      exact (h.value_eq ha hkey).symm
  | none =>
      cases hk : m k with
      | none => rfl
      | some v =>
          obtain ⟨a, ha, hkey, -⟩ := (h.mem_iff k v).mpr hk
          rw [h.hit?_eq_some_iff.mpr ⟨ha, hkey⟩] at hhit
          cases hhit

/-- A search finds no link where the map has nothing. -/
theorem hit?_eq_none (h : l.Holds m) {k : κ} (hk : m k = none) :
    (Link.locate k l.links).hit? Link.key k = none := by
  have hmap := h.map_hit? k
  rw [hk, Option.map_eq_none_iff] at hmap
  exact hmap

/-- A search finds a link with its value where the map has one. -/
theorem exists_hit? (h : l.Holds m) {k : κ} {v : υ} (hk : m k = some v) :
    ∃ a, (Link.locate k l.links).hit? Link.key k = some a ∧ a.value = v := by
  have hmap := h.map_hit? k
  rw [hk] at hmap
  exact Option.map_eq_some_iff.mp hmap

/-! ### The calls -/

/-- **A lookup** answers what the map holds. -/
theorem get_eq (h : l.Holds m) (k : κ) : l.get k = (l, m k) := by
  rw [get]
  simp only [h.chain_locate, h.map_hit?]

/-- An insertion of a key that is there changes nothing. -/
theorem insert_of_some (h : l.Holds m) {k : κ} {w : υ} (hk : m k = some w) (v : υ) :
    l.insert k v = (l, false) := by
  obtain ⟨a, hhit, -⟩ := h.exists_hit? hk
  rw [OrderedList.insert]
  simp only [hhit, h.chain_locate]

/-- **An insertion** of a key that is not there adds it. -/
theorem insert_of_none (h : l.Holds m) {k : κ} (hk : m k = none) (v : υ) :
    ∃ l', l.insert k v = (l', true) ∧ l'.Holds (m.set k (some v)) := by
  have hhit := h.hit?_eq_none hk
  let new : Link κ υ := { key := k, value := v }
  have hmem : ∀ a, a ∈ (Link.locate k l.links).before ++ new :: (Link.locate k l.links).rest ↔
      a = new ∨ a ∈ l.links := by
    intro a
    have hchain : a ∈ l.links ↔ a ∈ (Link.locate k l.links).chain := by rw [h.chain_locate]
    rw [hchain, Cursor.chain]
    simp only [List.mem_append, List.mem_cons]
    tauto
  refine ⟨⟨(Link.locate k l.links).before ++ new :: (Link.locate k l.links).rest⟩, ?_, ?_, ?_, ?_⟩
  · rw [OrderedList.insert]
    simp only [hhit]
    rfl
  · exact ascending_of_miss (a := new) h.ascending hhit rfl
  · intro a ha
    rcases (hmem a).mp ha with rfl | ha
    · rfl
    · exact h.unmarked a ha
  · intro x w
    constructor
    · rintro ⟨a, ha, rfl, rfl⟩
      rcases (hmem a).mp ha with rfl | ha
      · exact Contents.set_self ..
      · rw [Contents.set_of_ne _ (h.key_ne hk a ha)]
        exact h.value_eq ha rfl
    · intro hx
      by_cases hxk : x = k
      · subst hxk
        rw [Contents.set_self, Option.some.injEq] at hx
        exact ⟨new, (hmem new).mpr (Or.inl rfl), rfl, hx⟩
      · rw [Contents.set_of_ne _ hxk] at hx
        obtain ⟨a, ha, hkey, hvalue⟩ := (h.mem_iff x w).mpr hx
        exact ⟨a, (hmem a).mpr (Or.inr ha), hkey, hvalue⟩

/-- A removal of a key that is not there changes nothing. -/
theorem remove_of_none (h : l.Holds m) {k : κ} (hk : m k = none) : l.remove k = (l, none) := by
  rw [remove]
  simp only [h.hit?_eq_none hk, h.chain_locate]

/-- A search for a key that is there splits the list at its link. -/
theorem exists_split (h : l.Holds m) {k : κ} {v : υ} (hk : m k = some v) :
    ∃ b tail, (Link.locate k l.links).hit? Link.key k = some b ∧
      (Link.locate k l.links).rest = b :: tail ∧
      l.links = (Link.locate k l.links).before ++ b :: tail ∧ b.key = k ∧ b.value = v := by
  obtain ⟨b, hhit, rfl⟩ := h.exists_hit? hk
  obtain ⟨hhead, hbkey⟩ := AtomicSet.hit?_eq_some_iff.mp hhit
  cases hrest : (Link.locate k l.links).rest with
  | nil => simp [hrest] at hhead
  | cons c tail =>
      obtain rfl : c = b := by simpa [hrest] using hhead
      refine ⟨c, tail, hhit, rfl, ?_, hbkey, rfl⟩
      rw [← hrest]
      exact (h.chain_locate k).symm

/-- The other links have other keys. -/
theorem key_ne_of_split (h : l.Holds m) {before tail : List (Link κ υ)} {b : Link κ υ}
    (hsplit : l.links = before ++ b :: tail) : ∀ a ∈ before ++ tail, a.key ≠ b.key := by
  have hpairwise := h.ascending
  rw [Ascending, hsplit, List.pairwise_append, List.pairwise_cons] at hpairwise
  obtain ⟨-, ⟨htail, -⟩, hbefore⟩ := hpairwise
  intro a ha
  rcases List.mem_append.mp ha with ha | ha
  · exact ne_of_lt (hbefore a ha b List.mem_cons_self)
  · exact (ne_of_lt (htail a ha)).symm

/-- **A removal** of a key that is there takes it out. -/
theorem remove_of_some (h : l.Holds m) {k : κ} {v : υ} (hk : m k = some v) :
    ∃ l', l.remove k = (l', some v) ∧ l'.Holds (m.set k none) := by
  obtain ⟨b, tail, hhit, hrest, hsplit, rfl, rfl⟩ := h.exists_split hk
  have hne := h.key_ne_of_split hsplit
  have hsub : ((Link.locate b.key l.links).before ++ tail).Sublist l.links := by
    conv => rhs; rw [hsplit]
    exact (List.Sublist.refl _).append (List.sublist_cons_self b tail)
  refine ⟨⟨(Link.locate b.key l.links).before ++ tail⟩, ?_, h.ascending.sublist hsub,
    fun a ha => h.unmarked a (hsub.subset ha), fun x w => ?_⟩
  · rw [remove]
    simp only [hhit, hrest, List.tail_cons]
  · constructor
    · rintro ⟨a, ha, rfl, rfl⟩
      rw [Contents.set_of_ne _ (hne a ha)]
      exact h.value_eq (hsub.subset ha) rfl
    · intro hx
      have hxk : x ≠ b.key := by
        rintro rfl
        rw [Contents.set_self] at hx
        cases hx
      rw [Contents.set_of_ne _ hxk] at hx
      obtain ⟨a, ha, hkey, hvalue⟩ := (h.mem_iff x w).mpr hx
      refine ⟨a, ?_, hkey, hvalue⟩
      rw [hsplit] at ha
      rcases List.mem_append.mp ha with ha | ha
      · exact List.mem_append_left _ ha
      · rcases List.mem_cons.mp ha with rfl | ha
        · exact absurd hkey.symm hxk
        · exact List.mem_append_right _ ha

end Holds

end OrderedList

end AtomicSet
