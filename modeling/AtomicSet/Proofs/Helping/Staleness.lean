import AtomicSet.Proofs.Helping.Legal
import AtomicSet.Proofs.Helping.Unlinked

/-!
# When a node is stale

A node is stale if it carries a committed insertion that is on record for another node. Only one
thing makes such nodes: a thread that links a node for an insertion after its transaction has
committed. For an attempt that puts the stamp of an insertion on a node, new or old, puts that very
node on record, and what is on record stays. And a node that is linked late, but while its
transaction is still active, is the transaction's own from then on: whoever gets to the insertion
finds the stamp and puts the node on record.

## Main definitions

* `Store.Applies`, `Store.LinksLate` — the two ways in which a node gets its stamp.
* `Store.Accounted` — where the stamps come from, and what is on record for them.

## Main results

* `Store.WellFormed.mem_chain_act` — a node gets its stamp in one of these two ways.
* `Store.Coherent.isStale_of_isStale_act` — no admissible event makes a node stale.
* `HelpingSession.Legal.accounts_for_stamps` — stale nodes are those that were linked too late.
-/

namespace AtomicSet

variable {κ υ : Type} [LinearOrder κ]

namespace Store

/-! ### What happened to a node -/

/-- The event is the attempt at the operation whose stamp `n` carries, and the operation is applied
to `n`. -/
def Applies (n : Node κ υ) (s : Store κ υ) (e : Event κ υ) : Prop :=
  e = .attempt n.stamp.owner n.stamp.index ∧
    ∃ op s', (s.registry.get n.stamp.owner).op? n.stamp.index = some op ∧
      s.attempt n.stamp.owner n.stamp.index op = (s', .applied n.id)

/-- The event links `n` late, for a transaction that has the status `st`. -/
def LinksLate (n : Node κ υ) (st : Status) (s : Store κ υ) (e : Event κ υ) : Prop :=
  e = .linkLate n.stamp.owner n.stamp.index ∧ s.registry.status n.stamp.owner = st ∧
    n.id = s.nextNode ∧
    ∃ s', HelpingSession.linkLate s n.stamp.owner n.stamp.index = .ok (s', true)

/-- **A node gets its stamp** from an attempt that is applied to it, by its active owner, or when
it is linked late. -/
theorem WellFormed.mem_chain_act {s : Store κ υ} (h : s.WellFormed) (e : Event κ υ) {n : Node κ υ}
    (hn : n ∈ (s.act e).chain) :
    n ∈ s.chain ∨ (Applies n s e ∧ s.registry.isActive n.stamp.owner) ∨
      LinksLate n (s.registry.status n.stamp.owner) s e := by
  cases e with
  | allocate ops => exact Or.inl hn
  | attempt t i =>
      cases hop : (s.registry.get t).op? i with
      | none =>
          rw [Drive.act_attempt_of_none hop] at hn
          exact Or.inl hn
      | some op =>
          rw [Drive.act_attempt hop] at hn
          rcases hattempt : s.attempt t i op with ⟨s', progress⟩
          rw [hattempt] at hn
          rcases h.applied_of_mem_chain_attempt hattempt hn with hold | ⟨⟨rfl, rfl⟩, hactive, rfl⟩
          · exact Or.inl hold
          · exact Or.inr (Or.inl ⟨⟨rfl, op, s', hop, hattempt⟩, hactive⟩)
  | settle t final fake => exact Or.inl (by simpa [Store.act] using hn)
  | sweep f => exact Or.inl (h.mem_of_mem_sweep hn)
  | linkLate t i =>
      rw [Store.act] at hn
      rcases h.linkLate_cases t i with ⟨fault, heq⟩ | heq | ⟨k, v, c, -, hplace, heq⟩
      · rw [heq] at hn
        exact Or.inl hn
      · rw [heq] at hn
        exact Or.inl hn
      · rw [heq] at hn
        rcases (mem_chain_linkNode hplace.chain).mp hn with hold | rfl
        · exact Or.inl hold
        · exact Or.inr (Or.inr ⟨rfl, rfl, rfl, _, heq⟩)
  | resetTally => exact Or.inl hn

omit [LinearOrder κ] in
/-- A stamp is stale if it is that of a committed insertion which has another node on record. -/
theorem isStale_iff {s : Store κ υ} {n : Node κ υ} :
    s.isStale n = true ↔ (s.registry.get n.stamp.owner).kind? n.stamp.index = some .insert ∧
      s.registry.status n.stamp.owner = .committed ∧
      (s.registry.get n.stamp.owner).effect? n.stamp.index ≠ some n.id := by
  simp [isStale, Registry.status, and_assoc]

/-- A node that its active owner stamps is not stale. -/
theorem isStale_act_of_applies {s : Store κ υ} {e : Event κ υ} {n : Node κ υ}
    (h : Applies n s e) (hactive : s.registry.isActive n.stamp.owner) :
    (s.act e).isStale n = false := by
  obtain ⟨rfl, op, s', hop, hattempt⟩ := h
  have hslots := Drive.slotsOnly_of_attempt hattempt
  rw [Drive.act_attempt hop, hattempt]
  exact isStale_of_isActive (by rw [hslots.isActive_eq]; exact hactive)

namespace WellFormed

variable {s s' : Store κ υ} {t : TxnRef} {i : Nat}

/-- A node that is linked late is the new node of an insertion. -/
theorem linking_of_linkLate (h : s.WellFormed)
    (hlink : HelpingSession.linkLate s t i = .ok (s', true)) :
    ∃ k v c, (s.registry.get t).op? i = some (.insert k v) ∧ s.Linking k c ∧
      s.act (.linkLate t i) = s.linkNode t i k (some v) c := by
  have hact : s.act (.linkLate t i) = s' := by
    rw [Store.act, hlink]
  rw [hact]
  rcases h.linkLate_cases t i with ⟨fault, heq⟩ | heq | ⟨k, v, c, hop, hplace, heq⟩
  · cases hlink.symm.trans heq
  · cases hlink.symm.trans heq
  · rw [hlink] at heq
    simp only [Except.ok.injEq, Prod.mk.injEq, and_true] at heq
    exact ⟨k, v, c, hop, hplace, heq⟩

/-- No later node has the name of a node that was linked late. -/
theorem lt_nextNode_of_linkLate (h : s.WellFormed)
    (hlink : HelpingSession.linkLate s t i = .ok (s', true)) (es : List (Event κ υ)) :
    s.nextNode < ((s.act (.linkLate t i)).actAll es).nextNode := by
  obtain ⟨k, v, c, hop, hplace, heq⟩ := h.linking_of_linkLate hlink
  have hmem := mem_linkNode hplace.chain t i k (some v)
  rw [← heq] at hmem
  obtain ⟨n, hn, hid, -⟩ := ((h.act _).retains_actAll es).linked _ hmem
  have hlt := ((h.act _).actAll es).id_lt n hn
  rwa [hid] at hlt

end WellFormed

namespace Coherent

variable {s : Store κ υ}

/-- **An insertion that is applied to a node** has put that node on record. -/
theorem effect_of_applied (h : s.Coherent) {t : TxnRef} {i : Nat} {op : Operation κ υ}
    (hop : (s.registry.get t).op? i = some op) (hinsert : op.kind = .insert) {s' : Store κ υ}
    {id : NodeId} (hattempt : s.attempt t i op = (s', .applied id)) :
    (s'.registry.get t).effect? i = some id := by
  have hs := h.searched op.key
  -- The operation has not been performed before, so that its slot is empty.
  have hpublish : ∀ (x : Store κ υ) (id : NodeId) (after : Option υ),
      x.registry = (s.searched op.key).registry → s.registry.isActive t →
      ¬(s.searched op.key).Performed t i op →
      ((x.publish t i op id after).registry.get t).effect? i = some id := by
    intro x id after hx hactive hnot
    have hblank := (hs.blank t i op hactive hop hnot).1
    have hop' : (x.registry.get t).op? i = some op := hx ▸ hop
    rw [effect?_publish hop', if_pos ⟨rfl, rfl, hinsert⟩, hx, hblank]
    rfl
  have hcases := h.wellFormed.attempted t i op
  rw [hattempt] at hcases
  cases hcases with
  | @stamped n after hn hkey hfree hactive _ =>
      refine hpublish _ n.id after rfl hactive fun hperformed => ?_
      obtain ⟨hown, hle⟩ := (hs.performed_iff hn hkey.symm).mp hperformed
      rcases hfree with ⟨-, hlt⟩ | ⟨hne, -⟩
      · exact absurd hle (Nat.not_le.mpr hlt)
      · exact hne hown
  | @linked c after hplace hactive _ =>
      refine hpublish _ s.nextNode after rfl hactive ?_
      rintro ⟨m, hm, hmkey, -, -⟩
      exact hplace.absent m hm hmkey

/-- What is committed after an admissible event was committed before, or has just performed all of
its operations. -/
theorem reached_of_committed_act (h : s.Coherent) {e : Event κ υ} (he : s.Admissible e)
    {t : TxnRef} (ht : t < s.registry.size)
    (hcommitted : (s.act e).registry.status t = .committed) :
    s.registry.status t = .committed ∨
      s.registry.isActive t ∧ s.Reached t (s.registry.get t).size ∧
        ∃ fake, e = .settle t .committed fake := by
  by_cases hactive : s.registry.isActive t
  · obtain ⟨fake, rfl⟩ := h.wellFormed.eq_settle_of_committed hactive hcommitted
    exact Or.inr ⟨hactive, he.2 rfl hactive, fake, rfl⟩
  · rw [Bool.not_eq_true] at hactive
    have hstatus := (h.wellFormed.extends_act e).status_eq t ht hactive
    exact Or.inl (hstatus.symm.trans hcommitted)

/-- **No admissible event makes a node stale.** -/
theorem isStale_of_isStale_act (h : s.Coherent) {e : Event κ υ} (he : s.Admissible e)
    {n : Node κ υ} (hn : n ∈ s.chain) (hstale : (s.act e).isStale n) : s.isStale n := by
  have hlt := h.wellFormed.owner_lt hn
  have hext := h.wellFormed.extends_act e
  obtain ⟨hkind, hcommitted, heffect⟩ := isStale_iff.mp hstale
  rw [Transaction.kind?_congr (hext.ops_eq _ hlt)] at hkind
  rcases h.reached_of_committed_act he hlt hcommitted with hbefore | ⟨hactive, hreached, fake, rfl⟩
  · refine isStale_iff.mpr ⟨hkind, hbefore, fun hrecord => heffect ?_⟩
    exact hext.effect_eq _ hlt _ _ hrecord
  · have hnot := h.isStale_settle_committed hn fake hactive hreached
    rw [Store.act, hnot] at hstale
    cases hstale

end Coherent

/-! ### Nodes that are adopted -/

/-- The node `x` stands for the insertion `op` of `t` at position `i`: while `t` is active the node
is linked, for this operation of `t` or a later one, and once `t` has committed it is on record. -/
structure Adopted (s : Store κ υ) (t : TxnRef) (i : Nat) (op : Operation κ υ) (x : NodeId) :
    Prop where
  linked : s.registry.isActive t →
    ∃ n ∈ s.chain, n.id = x ∧ n.key = op.key ∧ n.stamp.owner = t ∧ i ≤ n.stamp.index
  recorded : s.registry.status t = .committed → (s.registry.get t).effect? i = some x

namespace Adopted

variable {s : Store κ υ} {t : TxnRef} {i : Nat} {op : Operation κ υ} {x : NodeId}

/-- What an insertion has adopted stays adopted, whatever admissible event happens. -/
theorem act (h : s.Adopted t i op x) (hs : s.Coherent) {e : Event κ υ} (he : s.Admissible e)
    (hop : (s.registry.get t).op? i = some op) (hinsert : op.kind = .insert) :
    (s.act e).Adopted t i op x := by
  have hlt := Registry.lt_size_of_op? hop
  have hext := hs.wellFormed.extends_act e
  refine ⟨fun hactive => ?_, fun hcommitted => ?_⟩
  · obtain ⟨n, hn, rfl, hkey, rfl, hle⟩ := h.linked (hext.isActive_of_isActive hlt hactive)
    obtain ⟨n', hn', hfollows⟩ := hs.wellFormed.owned_act hn e hactive
    exact ⟨n', hn', hfollows.id_eq, hfollows.key_eq.trans hkey, hfollows.owner_eq,
      Nat.le_trans hle hfollows.index_le⟩
  · refine hext.effect_eq t hlt i x ?_
    rcases hs.reached_of_committed_act he hlt hcommitted with hbefore | ⟨hactive, hreached, -⟩
    · exact h.recorded hbefore
    · obtain ⟨n, hn, rfl, hkey, rfl, hle⟩ := h.linked hactive
      exact hs.effect_of_reached hn hactive hreached hle hop hkey.symm hinsert

/-- **A node that was adopted stays so.** -/
theorem actAll (h : s.Adopted t i op x) (hs : s.Coherent) {es : List (Event κ υ)}
    (hes : s.Along Admissible es) (hop : (s.registry.get t).op? i = some op)
    (hinsert : op.kind = .insert) : (s.actAll es).Adopted t i op x := by
  induction es generalizing s with
  | nil => exact h
  | cons e es ih =>
      have hop' := (hs.wellFormed.extends_act e).op?_eq hop
      exact ih (h.act hs hes.1 hop hinsert) (hs.act hes.1) hes.2 hop'

end Adopted

/-! ### What is on record -/

/-- Where the stamps in the store `s` come from after `es` has happened, and what is on record for
them. -/
structure Accounted (s : Store κ υ) (es : List (Event κ υ)) : Prop where
  /-- The insertions of committed transactions are on record. -/
  committed : ∀ t i op, s.registry.status t = .committed →
    (s.registry.get t).op? i = some op → op.kind = .insert →
    ∃ id, (s.registry.get t).effect? i = some id
  /-- A node got its stamp from an attempt that was applied to it, or was linked late. -/
  origin : ∀ n ∈ s.chain, Sometime (Applies n) {} es ∨ ∃ st, Sometime (LinksLate n st) {} es
  /-- The insertion of a stamp that an attempt put on a node is on record for this node. -/
  attached : ∀ n ∈ s.chain, Sometime (Applies n) {} es →
    (s.registry.get n.stamp.owner).kind? n.stamp.index = some .insert →
    (s.registry.get n.stamp.owner).effect? n.stamp.index = some n.id
  /-- A stale node was linked late, after its transaction had committed. -/
  stale : ∀ n ∈ s.chain, s.isStale n → Sometime (LinksLate n .committed) {} es
  /-- A node that was linked late while its transaction was active is not stale, is the
  transaction's own while that is active, and is on record once it has committed. -/
  adopted : ∀ pre t i post s', es = pre ++ .linkLate t i :: post →
    (actAll {} pre).registry.isActive t →
    HelpingSession.linkLate (actAll {} pre) t i = .ok (s', true) →
    (∀ n ∈ s.chain, n.id = (actAll {} pre).nextNode → s.isStale n = false) ∧
      (s.registry.isActive t → ∃ n ∈ s.chain, n.id = (actAll {} pre).nextNode ∧
        n.stamp.owner = t ∧ i ≤ n.stamp.index) ∧
      (s.registry.status t = .committed →
        (s.registry.get t).effect? i = some (actAll {} pre).nextNode)

section Accounts

variable {es : List (Event κ υ)}

/-- All that happened so far keeps a store coherent, from the first event on. -/
theorem coherent_of_admissible (h : Along Admissible {} es) :
    (actAll {} es : Store κ υ).Coherent := by
  induction es using List.reverseRecOn with
  | nil => exact .fresh
  | append_singleton es e ih =>
      obtain ⟨hes, he, -⟩ := along_append.mp h
      rw [actAll_append]
      exact (ih hes).act he

/-- A node got its stamp from an attempt or late, and if it is stale it came too late. -/
theorem origin_of_admissible (h : Along Admissible {} es) {n : Node κ υ}
    (hn : n ∈ (actAll {} es : Store κ υ).chain) :
    (Sometime (Applies n) {} es ∨ ∃ st, Sometime (LinksLate n st) {} es) ∧
      ((actAll {} es).isStale n → Sometime (LinksLate n .committed) {} es) := by
  induction es using List.reverseRecOn with
  | nil => cases hn
  | append_singleton es e ih =>
      obtain ⟨hes, he, -⟩ := along_append.mp h
      have hcoherent := coherent_of_admissible hes
      rw [actAll_append] at hn ⊢
      rcases hcoherent.wellFormed.mem_chain_act e hn with hold | ⟨happlies, hactive⟩ | hlate
      · obtain ⟨horigin, hstale⟩ := ih hes hold
        refine ⟨?_, fun hstale' => ?_⟩
        · rcases horigin with happlied | ⟨st, hlate⟩
          · exact Or.inl (sometime_concat.mpr (Or.inl happlied))
          · exact Or.inr ⟨st, sometime_concat.mpr (Or.inl hlate)⟩
        · have hstale := hstale (hcoherent.isStale_of_isStale_act he hold hstale')
          exact sometime_concat.mpr (Or.inl hstale)
      · refine ⟨Or.inl (sometime_concat.mpr (Or.inr happlies)), fun hstale => ?_⟩
        rw [actAll_cons, actAll_nil, isStale_act_of_applies happlies hactive] at hstale
        cases hstale
      · refine ⟨Or.inr ⟨_, sometime_concat.mpr (Or.inr hlate)⟩, fun hstale => ?_⟩
        have hcommitted := (isStale_iff.mp hstale).2.1
        obtain ⟨rfl, -, hlink⟩ := hlate
        rw [actAll_cons, actAll_nil, hcoherent.wellFormed.registry_linkLate] at hcommitted
        exact sometime_concat.mpr (Or.inr ⟨rfl, hcommitted, hlink⟩)

/-- The insertion of a stamp that an attempt put on a node stays on record for this node. -/
theorem effect_of_sometime_applies (h : Along Admissible {} es) {n : Node κ υ}
    (happlies : Sometime (Applies n) {} es)
    (hinsert : ((actAll {} es).registry.get n.stamp.owner).kind? n.stamp.index = some .insert) :
    ((actAll {} es).registry.get n.stamp.owner).effect? n.stamp.index = some n.id := by
  obtain ⟨pre, e, post, rfl, rfl, op, s', hop, hattempt⟩ := happlies
  have hcoherent := coherent_of_admissible (along_append.mp h).1
  have hlt := Registry.lt_size_of_op? hop
  rw [actAll_append] at hinsert ⊢
  rw [Transaction.kind?_congr ((hcoherent.wellFormed.extends_actAll _).ops_eq _ hlt),
    Transaction.kind?, hop] at hinsert
  have heffect := hcoherent.effect_of_applied hop (Option.some.inj hinsert) hattempt
  have hact : (actAll {} pre).act (.attempt n.stamp.owner n.stamp.index) = s' := by
    rw [Drive.act_attempt hop, hattempt]
  rw [actAll_cons]
  refine (((hcoherent.wellFormed.act _).extends_actAll post).effect_eq _ ?_ _ _) ?_
  · exact Nat.lt_of_lt_of_le hlt (hcoherent.wellFormed.extends_act _).size_le
  · rw [hact]
    exact heffect

/-- Two events that link nodes of the same name late are the same event. -/
theorem eq_of_linkLate {pre pre' post post' : List (Event κ υ)} {t t' : TxnRef} {i i' : Nat}
    {s s' : Store κ υ} (heq : pre ++ .linkLate t i :: post = pre' ++ .linkLate t' i' :: post')
    (hlink : HelpingSession.linkLate (actAll {} pre) t i = .ok (s, true))
    (hlink' : HelpingSession.linkLate (actAll {} pre') t' i' = .ok (s', true))
    (hnext : (actAll {} pre : Store κ υ).nextNode = (actAll {} pre' : Store κ υ).nextNode) :
    pre = pre' ∧ t = t' := by
  have hwf : ∀ es : List (Event κ υ), (actAll {} es : Store κ υ).WellFormed :=
    fun es => WellFormed.fresh.actAll es
  rcases List.append_eq_append_iff.mp heq with ⟨mid, rfl, hmid⟩ | ⟨mid, rfl, hmid⟩
  · cases mid with
    | nil =>
        injection hmid with hevent
        injection hevent with ht
        exact ⟨(List.append_nil pre).symm, ht⟩
    | cons e mid =>
        obtain rfl := (List.cons.inj hmid).1
        have hlt := (hwf pre).lt_nextNode_of_linkLate hlink mid
        rw [actAll_append] at hnext
        exact absurd hnext (Nat.ne_of_lt hlt)
  · cases mid with
    | nil =>
        injection hmid with hevent
        injection hevent with ht
        exact ⟨List.append_nil pre', ht.symm⟩
    | cons e mid =>
        obtain rfl := (List.cons.inj hmid).1
        have hlt := (hwf pre').lt_nextNode_of_linkLate hlink' mid
        rw [actAll_append] at hnext
        exact absurd hnext.symm (Nat.ne_of_lt hlt)

/-- A node that is linked late for an active transaction is adopted by it. -/
theorem adopted_of_linkLate {pre post : List (Event κ υ)} {t : TxnRef} {i : Nat} {s' : Store κ υ}
    (h : Along Admissible {} (pre ++ .linkLate t i :: post))
    (hactive : (actAll {} pre).registry.isActive t)
    (hlink : HelpingSession.linkLate (actAll {} pre) t i = .ok (s', true)) :
    ∃ op, (actAll {} (pre ++ .linkLate t i :: post) : Store κ υ).Adopted t i op
      (actAll {} pre : Store κ υ).nextNode := by
  obtain ⟨hpre, he, hpost⟩ := along_append.mp h
  have hcoherent := coherent_of_admissible hpre
  obtain ⟨k, v, c, hop, hplace, heq⟩ := hcoherent.wellFormed.linking_of_linkLate hlink
  have hmem := WellFormed.mem_linkNode hplace.chain t i k (some v)
  rw [← heq] at hmem
  have hadopted : ((actAll {} pre).act (.linkLate t i) : Store κ υ).Adopted t i (.insert k v)
      (actAll {} pre : Store κ υ).nextNode := by
    refine ⟨fun _ => ⟨_, hmem, rfl, rfl, rfl, Nat.le_refl i⟩, fun hcommitted => ?_⟩
    rw [hcoherent.wellFormed.registry_linkLate, Registry.status,
      Registry.isActive_iff.mp hactive] at hcommitted
    cases hcommitted
  refine ⟨.insert k v, ?_⟩
  rw [actAll_append, actAll_cons]
  exact hadopted.actAll (hcoherent.act he) hpost
    ((hcoherent.wellFormed.extends_act _).op?_eq hop) rfl

/-- **All stamps are accounted for** as long as what happens is admissible. -/
theorem accounted_of_admissible (h : Along Admissible {} es) :
    (actAll {} es : Store κ υ).Accounted es where
  committed := (coherent_of_admissible h).done
  origin _ hn := (origin_of_admissible h hn).1
  attached _ _ happlies hinsert := effect_of_sometime_applies h happlies hinsert
  stale _ hn := (origin_of_admissible h hn).2
  adopted := by
    rintro pre t i post s' rfl hactive hlink
    obtain ⟨op, hadopted⟩ := adopted_of_linkLate h hactive hlink
    refine ⟨fun n hn hid => ?_, fun hstill => ?_, hadopted.recorded⟩
    · rw [← Bool.not_eq_true]
      intro hstale
      obtain ⟨pre', e, post', heq, rfl, hcommitted, hid', s'', hlink'⟩ :=
        (origin_of_admissible h hn).2 hstale
      obtain ⟨rfl, rfl⟩ := eq_of_linkLate heq hlink hlink' (hid.symm.trans hid')
      rw [Registry.status, Registry.isActive_iff.mp hactive] at hcommitted
      cases hcommitted
    · obtain ⟨n, hn, hid, -, hown, hle⟩ := hadopted.linked hstill
      exact ⟨n, hn, hid, hown, hle⟩

end Accounts

end Store

namespace HelpingSession

/-- **Stale nodes are those that were linked too late.** At every moment of a legal run the
insertions of committed transactions are on record; an insertion that an attempt put on a node is
on record for that node; a stale node was linked late after its transaction had committed; and a
node that was linked late before that is adopted by its transaction. -/
theorem Legal.accounts_for_stamps {s : HelpingSession κ υ} {log : List (Command κ υ × Reply κ υ)}
    {es : List (Event κ υ)} (h : Legal s log es) :
    Store.actAll {} es = s.store ∧
      ∀ pre post, es = pre ++ post → (Store.actAll {} pre : Store κ υ).Accounted pre := by
  refine ⟨h.actAll_eq, ?_⟩
  rintro pre post rfl
  exact Store.accounted_of_admissible (Store.along_append.mp h.admissible).1

/-- Two late nodes: that of an active insertion is adopted, and that of a committed one whose entry
was deleted since is stale. -/
theorem accounts_for_late_nodes : ∃ s : HelpingSession Nat Nat, ∃ log es, Legal s log es ∧
    (s.store.chain.map fun n => (n.key, s.store.isStale n)) = [(1, true), (2, false)] ∧
    s.store.entries = [(2, 20)] ∧ Store.actAll {} es = s.store ∧
      ∀ pre post, es = pre ++ post → (Store.actAll {} pre : Store Nat Nat).Accounted pre := by
  have h₁ := Legal.fresh.perform (c := .allocate [.insert (1 : Nat) (10 : Nat)]) trivial
  have h₂ := h₁.perform (c := .allocate [.insert 2 20]) trivial
  have h₃ := h₂.perform (c := .late 1 0) (by decide)
  have h₄ := h₃.perform (c := .step 0 0) (by decide)
  have h₅ := h₄.perform (c := .finish 0 1 false) (by decide)
  have h₆ := h₅.perform (c := .allocate [.delete 1]) trivial
  have h₇ := h₆.perform (c := .step 2 0) (by decide)
  have h₈ := h₇.perform (c := .finish 2 1 false) (by decide)
  have h₉ := h₈.perform (c := .late 0 0) (by decide)
  have h₁₀ := h₉.perform (c := .step 1 0) (by decide)
  have h₁₁ := h₁₀.perform (c := .finish 1 1 false) (by decide)
  exact ⟨_, _, _, h₁₁, by decide, by decide, Legal.accounts_for_stamps h₁₁⟩

end HelpingSession

end AtomicSet
