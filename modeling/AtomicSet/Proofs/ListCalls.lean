import AtomicSet.Proofs.OrderedList

/-!
# Calls of an ordered list, one after another

A list that starts empty and is only changed by its calls answers every call as a map would that is
changed by the same calls: whatever the calls are, the list holds that map before and after each of
them, on links that ascend strictly and bear no mark.

## Main definitions

* `OrderedList.Call`, `OrderedList.Answer`, `OrderedList.call` — the calls, as one function.
* `OrderedList.afterCalls` — the list after calls in order.
* `Contents.afterCall`, `Contents.Answers` — what a call makes of a map, and what a map answers.

## Main results

* `OrderedList.Holds.answers_call`, `OrderedList.Holds.holds_call` — one call.
* `OrderedList.Holds.locate_markFirst` — a removal in its two moments.
* `OrderedList.calls_refine_map` — every call of every sequence.
-/

namespace AtomicSet

/-- A call of an ordered list. -/
inductive OrderedList.Call (κ υ : Type) where
  | get (k : κ)
  | insert (k : κ) (v : υ)
  | remove (k : κ)
  | visit
deriving DecidableEq, Repr

/-- What a call answers. -/
inductive OrderedList.Answer (κ υ : Type) where
  /-- The value of a key, or the one that was taken out. -/
  | value (v : Option υ)
  /-- Whether an entry was added. -/
  | added (new : Bool)
  /-- The entries in the order in which they were visited. -/
  | visited (entries : List (κ × υ))
deriving DecidableEq, Repr

namespace Contents

open OrderedList

variable {κ υ : Type} [DecidableEq κ]

/-- The map after a call. An insertion does not touch a key that is there. -/
def afterCall (m : Contents κ υ) : Call κ υ → Contents κ υ
  | .get _ => m
  | .insert k v => if (m k).isSome then m else m.set k (some v)
  | .remove k => m.set k none
  | .visit => m

/-- The map after calls in order. -/
def afterCalls (m : Contents κ υ) (calls : List (Call κ υ)) : Contents κ υ :=
  calls.foldl afterCall m

omit [DecidableEq κ] in
/-- The map answers the call so. -/
def Answers [LT κ] (m : Contents κ υ) : Call κ υ → Answer κ υ → Prop
  | .get k, a => a = .value (m k)
  | .insert k _, a => a = .added (m k).isNone
  | .remove k, a => a = .value (m k)
  | .visit, a => ∃ entries, a = .visited entries ∧ m.Lists entries

end Contents

/-- The first link of a key, behind links of other keys. -/
theorem Link.markFirst_append {κ υ : Type} [DecidableEq κ] {k : κ} {before : List (Link κ υ)}
    {b : Link κ υ} (hbefore : ∀ a ∈ before, a.key ≠ k) (hb : b.key = k) (tail : List (Link κ υ)) :
    Link.markFirst k (before ++ b :: tail) =
      (before ++ { b with marked := true } :: tail, true) := by
  induction before with
  | nil => simp only [List.nil_append, markFirst, hb, if_true]
  | cons a before ih =>
      have ha := hbefore a List.mem_cons_self
      have hih := ih fun c hc => hbefore c (List.mem_cons_of_mem a hc)
      simp only [List.cons_append, markFirst, ha, if_false, hih]

namespace OrderedList

variable {κ υ : Type} [LinearOrder κ]

/-- The list after a call, and the answer. -/
def call (l : OrderedList κ υ) : Call κ υ → OrderedList κ υ × Answer κ υ
  | .get k => let (l', v) := l.get k; (l', .value v)
  | .insert k v => let (l', new) := l.insert k v; (l', .added new)
  | .remove k => let (l', v) := l.remove k; (l', .value v)
  | .visit => (l, .visited l.entries)

/-- The list after calls in order. -/
def afterCalls (l : OrderedList κ υ) (calls : List (Call κ υ)) : OrderedList κ υ :=
  calls.foldl (fun l c => (l.call c).1) l

namespace Holds

variable {l : OrderedList κ υ} {m : Contents κ υ}

/-- **A call answers what the map answers.** -/
theorem answers_call (h : l.Holds m) (c : Call κ υ) : m.Answers c (l.call c).2 := by
  cases c with
  | get k => rw [call, h.get_eq]; rfl
  | insert k v =>
      cases hk : m k with
      | none =>
          obtain ⟨l', heq, -⟩ := h.insert_of_none hk v
          simp only [call, heq, Contents.Answers, hk, Option.isNone_none]
      | some w =>
          simp only [call, h.insert_of_some hk v, Contents.Answers, hk, Option.isNone_some]
  | remove k =>
      cases hk : m k with
      | none => simp only [call, h.remove_of_none hk, Contents.Answers, hk]
      | some v =>
          obtain ⟨l', heq, -⟩ := h.remove_of_some hk
          simp only [call, heq, Contents.Answers, hk]
  | visit => exact ⟨l.entries, rfl, h.lists_entries⟩

/-- **A call does to the list what it does to the map.** -/
theorem holds_call (h : l.Holds m) (c : Call κ υ) : (l.call c).1.Holds (m.afterCall c) := by
  cases c with
  | get k =>
      rw [call, h.get_eq]
      exact h
  | insert k v =>
      cases hk : m k with
      | none =>
          obtain ⟨l', heq, hl'⟩ := h.insert_of_none hk v
          simpa only [call, heq, Contents.afterCall, hk, Option.isSome_none, Bool.false_eq_true,
            if_false] using hl'
      | some w =>
          simpa only [call, h.insert_of_some hk v, Contents.afterCall, hk, Option.isSome_some,
            if_true] using h
  | remove k =>
      cases hk : m k with
      | none =>
          have hsame : m.set k none = m := by
            funext x
            by_cases hx : x = k
            · rw [hx, Contents.set_self, hk]
            · exact Contents.set_of_ne m hx none
          simpa only [call, h.remove_of_none hk, Contents.afterCall, hsame] using h
      | some v =>
          obtain ⟨l', heq, hl'⟩ := h.remove_of_some hk
          simpa only [call, heq, Contents.afterCall] using hl'
  | visit => exact h

/-- A list that holds a map holds after any calls what they make of the map. -/
theorem holds_afterCalls (h : l.Holds m) (calls : List (Call κ υ)) :
    (l.afterCalls calls).Holds (m.afterCalls calls) := by
  induction calls generalizing l m with
  | nil => exact h
  | cons c calls ih => exact ih (h.holds_call c)

/-- **A removal in its two moments.** Marking the link of the key takes the entry out of sight and
leaves the order of the chain; the link itself goes with the search that comes next. -/
theorem locate_markFirst (h : l.Holds m) {k : κ} {v : υ} (hk : m k = some v) :
    Ascending Link.key (Link.markFirst k l.links).1 ∧
    entries ⟨(Link.markFirst k l.links).1⟩ = (l.remove k).1.entries ∧
    (Link.locate k (Link.markFirst k l.links).1).chain = (l.remove k).1.links := by
  obtain ⟨b, tail, hhit, hrest, hsplit, rfl, rfl⟩ := h.exists_split hk
  have hremove : l.remove b.key = (⟨(Link.locate b.key l.links).before ++ tail⟩, some b.value) := by
    rw [remove]
    simp only [hhit, hrest, List.tail_cons]
  rw [hremove]
  generalize (Link.locate b.key l.links).before = before at hsplit
  have hne := h.key_ne_of_split hsplit
  have hmark := Link.markFirst_append (fun a ha => hne a (List.mem_append_left _ ha)) rfl tail
  rw [hsplit, hmark]
  have hunmarked : ∀ a ∈ before ++ tail, a.marked = false := by
    intro a ha
    refine h.unmarked a ?_
    rw [hsplit]
    rcases List.mem_append.mp ha with ha | ha
    · exact List.mem_append_left _ ha
    · exact List.mem_append_right _ (List.mem_cons_of_mem _ ha)
  have hascending : Ascending Link.key (before ++ { b with marked := true } :: tail) := by
    have hkeys : ∀ a : Link κ υ, a.key = b.key → Ascending Link.key (before ++ a :: tail) := by
      intro a ha
      have hpairwise := h.ascending
      rw [hsplit] at hpairwise
      simpa only [Ascending, List.pairwise_append, List.pairwise_cons, List.mem_cons,
        forall_eq_or_imp, ha] using hpairwise
    exact hkeys _ rfl
  have hall : (before ++ tail).filter (fun a => !a.marked) = before ++ tail :=
    List.filter_eq_self.mpr fun a ha => by rw [hunmarked a ha]; rfl
  have hfilter : (before ++ { b with marked := true } :: tail).filter (fun a => !a.marked) =
      before ++ tail := by
    rw [List.filter_append, List.filter_cons_of_neg (by simp), ← List.filter_append, hall]
  refine ⟨hascending, ?_, ?_⟩
  · rw [entries, entries, hfilter, hall]
  · rw [Link.locate, AtomicSet.chain_locate hascending, hfilter]
    intro a ha hm
    rcases List.mem_append.mp ha with hbefore | htail
    · rw [hunmarked a (List.mem_append_left _ hbefore)] at hm
      cases hm
    · rcases List.mem_cons.mp htail with rfl | htail
      · rfl
      · rw [hunmarked a (List.mem_append_right _ htail)] at hm
        cases hm

end Holds

/-- **Ordered lists refine maps.** -/
theorem calls_refine_map (calls : List (Call κ υ)) (c : Call κ υ) :
    let l := ({} : OrderedList κ υ).afterCalls calls
    let m := (Contents.empty : Contents κ υ).afterCalls calls
    m.Answers c (l.call c).2 ∧
      (l.call c).1.Holds (m.afterCall c) ∧
      Ascending Link.key (l.call c).1.links ∧
      (∀ a ∈ (l.call c).1.links, a.marked = false) ∧
      (m.afterCall c = m → (l.call c).1 = l) := by
  intro l m
  have hl : l.Holds m := Holds.fresh.holds_afterCalls calls
  have hafter := hl.holds_call c
  exact ⟨hl.answers_call c, hafter, hafter.ascending, hafter.unmarked,
    fun hsame => (hsame ▸ hafter).unique hl⟩

example : (({} : OrderedList Nat String).afterCalls
    [.insert 2 "b", .insert 1 "a", .insert 2 "c"]).call (.remove 2) =
      (⟨[{ key := 1, value := "a" }]⟩, .value (some "b")) := by decide

end OrderedList

end AtomicSet
