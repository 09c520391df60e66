import Mathlib
import Overlay.Proofs.Peers.Ownership

/-!
The ring as a cluster divides it. Each member is followed by another one, and between the two lies a
gap. Where all members know each other, the member in front of a gap claims the gap if it is at most
half the ring, since the shorter way to the next member leads through it. A wider gap is claimed by
nobody: every two members are joined by a shorter way that does not pass it.
-/

namespace Overlay.LeafSet

open Keyspace (Id Space)

/-- The walk from `a` to `b` passes `id` on its way. -/
def Passes (a b id : Id) : Prop := 0 < a.clockwise id ∧ a.clockwise id < a.clockwise b

/-- Two members of a cluster that follow each other on the ring. -/
structure Gap (cluster : Finset Id) (a b : Id) : Prop where
  start_mem : a ∈ cluster
  stop_mem : b ∈ cluster
  ne : a ≠ b
  empty : ∀ c ∈ cluster, ¬Passes a b c

/-- More than half the ring lies between two identifiers. -/
def Wide (a b : Id) : Prop := a.space.size < 2 * a.clockwise b

instance (a b : Id) : Decidable (Wide a b) := inferInstanceAs (Decidable (_ < _))

instance (a b id : Id) : Decidable (Passes a b id) := inferInstanceAs (Decidable (_ ∧ _))

/-- Some member claims a key, having room for `capacity` others on either side of it. -/
def Owned (cluster : Finset Id) (capacity : Nat) (offers : Id → List Node) (key : Id) : Prop :=
  ∃ owner ∈ cluster, ((empty owner capacity).offerAll (offers owner)).covers key = true

variable {cluster : Finset Id} {space : Space} {capacity : Nat} {offers : Id → List Node}
  {a b key : Id}

/-- Every member is followed by another one, the nearest ahead of it. -/
theorem exists_gap (hcard : 2 ≤ cluster.card) (ha : a ∈ cluster) : ∃ b, Gap cluster a b := by
  obtain ⟨c, hc, hca⟩ := cluster.exists_mem_ne (by omega) a
  obtain ⟨b, hb, hnearest⟩ :=
    (cluster.erase a).exists_min_image a.clockwise ⟨c, Finset.mem_erase.mpr ⟨hca, hc⟩⟩
  obtain ⟨hba, hb⟩ := Finset.mem_erase.mp hb
  refine ⟨b, ha, hb, hba.symm, ?_⟩
  rintro d hd ⟨hafter, hbefore⟩
  have hda : d ≠ a := by
    rintro rfl
    rw [Id.clockwise_self] at hafter
    omega
  have hfar := hnearest d (Finset.mem_erase.mpr ⟨hda, hd⟩)
  omega

/-- A key that is no member lies in the gap in front of the nearest member behind it. -/
theorem exists_gap_passing (hspace : ∀ id ∈ cluster, id.space = space) (hcard : 2 ≤ cluster.card)
    (hkey : key.space = space) (hnot : key ∉ cluster) :
    ∃ a b, Gap cluster a b ∧ Passes a b key := by
  have hnonempty : cluster.Nonempty := Finset.card_pos.mp (by omega)
  obtain ⟨a, ha, hbehind⟩ := cluster.exists_min_image (·.clockwise key) hnonempty
  obtain ⟨b, hgap⟩ := exists_gap hcard ha
  have hb := hgap.stop_mem
  have hab : a.space = b.space := (hspace a ha).trans (hspace b hb).symm
  have hafter : a.clockwise key ≠ 0 := by
    intro hzero
    have heq := (Id.clockwise_eq_zero ((hspace a ha).trans hkey.symm)).mp hzero
    exact hnot (heq ▸ ha)
  have hpos : a.clockwise b ≠ 0 := fun hzero => hgap.ne ((Id.clockwise_eq_zero hab).mp hzero)
  have hsum := Id.clockwise_add hab ((hspace b hb).trans hkey.symm)
  have hlt := Id.clockwise_lt b key
  have hnearer := hbehind b hb
  rw [hab] at hsum
  refine ⟨a, b, hgap, Nat.pos_of_ne_zero hafter, ?_⟩
  -- If the next member came first, it would be nearer behind the key.
  omega

/-- The shorter way from one member to another does not pass through a wide gap. -/
theorem Gap.not_between (h : Gap cluster a b) (hspace : ∀ id ∈ cluster, id.space = space)
    (hwide : Wide a b) (hkey : key.space = space) (hpasses : Passes a b key) {owner m : Id}
    (howner : owner ∈ cluster) (hm : m ∈ cluster) : ¬Between owner m key := by
  obtain ⟨hafter, hbefore⟩ := hpasses
  have ha := hspace a h.start_mem
  have hlocal := hspace owner howner
  have hm' := hspace m hm
  -- Where both stand, counted from the start of the gap.
  have howner' : ¬(0 < a.clockwise owner ∧ a.clockwise owner < a.clockwise b) :=
    h.empty owner howner
  have hmember : ¬(0 < a.clockwise m ∧ a.clockwise m < a.clockwise b) := h.empty m hm
  have hturn := Id.clockwise_turn (hlocal.trans hm'.symm)
  have hlt := Id.clockwise_lt a b
  have hlt' := Id.clockwise_lt a owner
  have hlt'' := Id.clockwise_lt a m
  rw [Wide] at hwide
  rw [ha] at hwide hlt hlt' hlt''
  rw [hlocal] at hturn
  rw [Between]
  split
  case isTrue hahead =>
    have hkey := Id.clockwise_add (ha.trans hlocal.symm) (hlocal.trans hkey.symm)
    have hm := Id.clockwise_add (ha.trans hlocal.symm) (hlocal.trans hm'.symm)
    rw [ha] at hkey hm
    rw [Ahead] at hahead
    omega
  case isFalse hbehind =>
    have hkey := Id.clockwise_add (ha.trans hkey.symm) (hkey.trans hlocal.symm)
    have hm := Id.clockwise_add (ha.trans hm'.symm) (hm'.trans hlocal.symm)
    rw [ha] at hkey hm
    rw [Ahead] at hbehind
    omega

/-- The member in front of a gap of at most half the ring has the next member ahead of it. -/
theorem between_of_not_wide (hab : a.space = b.space) (hnarrow : ¬Wide a b)
    (hpasses : Passes a b key) : Between a b key := by
  have hahead : Ahead a b := by
    have hturn := Id.clockwise_turn hab
    rw [Wide] at hnarrow
    rw [Ahead]
    omega
  rw [Between, if_pos hahead]
  exact Nat.le_of_lt hpasses.2

/-- There is at most one wide gap: another one would have to lie in the rest of the ring. -/
theorem Gap.eq_of_wide (h : Gap cluster a b) {a' b' : Id} (h' : Gap cluster a' b')
    (hspace : ∀ id ∈ cluster, id.space = space) (hwide : Wide a b) (hwide' : Wide a' b') :
    a = a' ∧ b = b' := by
  have ha := hspace a h.start_mem
  have ha' := hspace a' h'.start_mem
  have hstart : a = a' := by
    by_contra hne
    have hturn := Id.clockwise_add_back (ha.trans ha'.symm) hne
    have hempty : ¬(0 < a.clockwise a' ∧ a.clockwise a' < a.clockwise b) := h.empty a' h'.start_mem
    have hempty' : ¬(0 < a'.clockwise a ∧ a'.clockwise a < a'.clockwise b') :=
      h'.empty a h.start_mem
    have hlt := Id.clockwise_lt a a'
    have hlt' := Id.clockwise_lt a' a
    rw [Wide] at hwide hwide'
    rw [ha] at hwide hturn hlt
    rw [ha'] at hwide' hlt'
    omega
  subst hstart
  have hb := hspace b h.stop_mem
  have hempty : ¬(0 < a.clockwise b' ∧ a.clockwise b' < a.clockwise b) := h.empty b' h'.stop_mem
  have hempty' : ¬(0 < a.clockwise b ∧ a.clockwise b < a.clockwise b') := h'.empty b h.stop_mem
  rw [Wide] at hwide hwide'
  refine ⟨rfl, Id.eq_of_clockwise_eq (ha.trans hb.symm) (hb.trans (hspace b' h'.stop_mem).symm) ?_⟩
  omega

/-- A wide gap is never empty. -/
theorem Wide.exists_passes (hwide : Wide a b) : ∃ key, key.space = a.space ∧ Passes a b key := by
  have hlt := Id.clockwise_lt a b
  have hsize : 2 ≤ a.space.size := Nat.pow_le_pow_right (by decide : 0 < 2) a.space.bits_pos
  obtain ⟨key, hkey, hsteps⟩ := a.exists_clockwise_eq (by omega : 1 < a.space.size)
  rw [Wide] at hwide
  exact ⟨key, hkey, by omega, by omega⟩

/-- With room for all others nobody is left out. -/
theorem keeps_iff_of_room (hroom : cluster.card ≤ capacity + 1) {origin m : Id}
    (horigin : origin ∈ cluster) : Keeps cluster capacity origin m ↔ m ∈ cluster ∧ m ≠ origin := by
  constructor
  · intro hkeeps
    exact ⟨hkeeps.mem, hkeeps.ne⟩
  · rintro ⟨hm, hne⟩
    refine ⟨hm, hne, ?_⟩
    have hothers : rivals cluster origin m ⊆ (cluster.erase origin).erase m := by
      intro r hr
      obtain ⟨hr, hrorigin, -, hcloser⟩ := Finset.mem_filter.mp hr
      have hrm : r ≠ m := by
        rintro rfl
        have hirrefl : closer origin r r = false := Ranked.Ranking.irrefl r
        rw [hirrefl] at hcloser
        cases hcloser
      exact Finset.mem_erase.mpr ⟨hrm, Finset.mem_erase.mpr ⟨hrorigin, hr⟩⟩
    have hcard := Finset.card_le_card hothers
    rw [Finset.card_erase_of_mem (Finset.mem_erase.mpr ⟨hne, hm⟩),
      Finset.card_erase_of_mem horigin] at hcard
    have htwo : 1 < cluster.card := Finset.one_lt_card.mpr ⟨m, hm, origin, horigin, hne⟩
    omega

/-- Where all know each other, a key belongs to the members on whose shorter way to another member
it lies. -/
theorem owned_iff_between (hspace : ∀ id ∈ cluster, id.space = space) (hcard : 2 ≤ cluster.card)
    (hroom : cluster.card ≤ capacity + 1)
    (hoffers : ∀ id ∈ cluster, OffersAll cluster id (offers id)) (hkey : key.space = space) :
    Owned cluster capacity offers key ↔
      ∃ owner ∈ cluster, ∃ m ∈ cluster, m ≠ owner ∧ Between owner m key := by
  apply exists_congr
  intro owner
  apply and_congr_right
  intro howner
  have hlocal := hspace owner howner
  rw [(hoffers owner howner).covers_iff (by omega) howner
    (fun id hid => (hspace id hid).trans hlocal.symm) (hkey.trans hlocal.symm)]
  have hmany : ¬cluster.card = 1 := by omega
  simp only [hmany, false_or, keeps_iff_of_room hroom howner, and_assoc]

theorem owned_iff_not_passed (hspace : ∀ id ∈ cluster, id.space = space) (hcard : 2 ≤ cluster.card)
    (hroom : cluster.card ≤ capacity + 1)
    (hoffers : ∀ id ∈ cluster, OffersAll cluster id (offers id)) (hkey : key.space = space) :
    Owned cluster capacity offers key ↔ ¬∃ a b, Gap cluster a b ∧ Wide a b ∧ Passes a b key := by
  rw [owned_iff_between hspace hcard hroom hoffers hkey]
  constructor
  · rintro ⟨owner, howner, m, hm, -, hbetween⟩ ⟨a, b, hgap, hwide, hpasses⟩
    exact hgap.not_between hspace hwide hkey hpasses howner hm hbetween
  · intro hnone
    by_cases hmember : key ∈ cluster
    · obtain ⟨m, hm, hne⟩ := cluster.exists_mem_ne (by omega) key
      exact ⟨key, hmember, m, hm, hne, between_self key m⟩
    · obtain ⟨a, b, hgap, hpasses⟩ := exists_gap_passing hspace hcard hkey hmember
      have hnarrow : ¬Wide a b := fun hwide => hnone ⟨a, b, hgap, hwide, hpasses⟩
      have hab : a.space = b.space :=
        (hspace a hgap.start_mem).trans (hspace b hgap.stop_mem).symm
      exact ⟨a, hgap.start_mem, b, hgap.stop_mem, hgap.ne.symm,
        between_of_not_wide hab hnarrow hpasses⟩

/-- In a cluster of at least two in which everybody knows everybody, a key has an owner unless it
lies strictly inside a gap of more than half the ring. There is at most one such gap, and the
cluster owns the whole ring just if there is none. -/
theorem owned_iff_outside_wide_gap {space : Space} {cluster : Finset Id}
    (hspace : ∀ id ∈ cluster, id.space = space) (hcard : 2 ≤ cluster.card) {capacity : Nat}
    (hroom : cluster.card - 1 ≤ capacity) {offers : Id → List Node}
    (hoffers : ∀ id ∈ cluster, OffersAll cluster id (offers id)) :
    (∀ key, key.space = space → (Owned cluster capacity offers key ↔
        ¬∃ a b, Gap cluster a b ∧ Wide a b ∧ Passes a b key)) ∧
      (∀ a b a' b', Gap cluster a b → Gap cluster a' b' → Wide a b → Wide a' b' →
        a = a' ∧ b = b') ∧
      ((∀ key, key.space = space → Owned cluster capacity offers key) ↔
        ∀ a b, Gap cluster a b → ¬Wide a b) := by
  have howned {key : Id} (hkey : key.space = space) :=
    owned_iff_not_passed hspace hcard (by omega : cluster.card ≤ capacity + 1) hoffers hkey
  refine ⟨fun key hkey => howned hkey,
    fun a b a' b' hgap hgap' => hgap.eq_of_wide hgap' hspace, ?_⟩
  constructor
  · intro hall a b hgap hwide
    obtain ⟨key, hlocal, hpasses⟩ := hwide.exists_passes
    have hkey : key.space = space := hlocal.trans (hspace a hgap.start_mem)
    exact (howned hkey).mp (hall key hkey) ⟨a, b, hgap, hwide, hpasses⟩
  · intro hnarrow key hkey
    apply (howned hkey).mpr
    rintro ⟨a, b, hgap, hwide, -⟩
    exact hnarrow a b hgap hwide

/-- Three nodes on one side of a ring of eight: the keys between them are owned, and those on the
far side are not. -/
theorem far_side_unowned :
    let space : Space := { radix := .octal, length := 1 }
    let node := Node.sample space
    let nodes := [node 0, node 1, node 3]
    let cluster := (nodes.map (·.id)).toFinset
    (∀ id ∈ cluster, id.space = space) ∧ 2 ≤ cluster.card ∧ cluster.card - 1 ≤ 2 ∧
      (∀ id ∈ cluster, OffersAll cluster id nodes) ∧
      Owned cluster 2 (fun _ => nodes) (node 2).id ∧
      ¬Owned cluster 2 (fun _ => nodes) (node 5).id := by
  intro space node nodes cluster
  have hspace : ∀ id ∈ cluster, id.space = space := by decide
  have hcard : 2 ≤ cluster.card := by decide
  have hroom : cluster.card - 1 ≤ 2 := by decide
  have hoffers : ∀ id ∈ cluster, OffersAll cluster id nodes :=
    fun _ _ _ _ => List.mem_toFinset.symm
  obtain ⟨howned, hunique, -⟩ := owned_iff_outside_wide_gap hspace hcard hroom hoffers
  have hgap : Gap cluster (node 3).id (node 0).id :=
    ⟨by decide, by decide, by decide, by decide⟩
  have hwide : Wide (node 3).id (node 0).id := by decide
  refine ⟨hspace, hcard, hroom, hoffers, (howned (node 2).id rfl).mpr ?_, ?_⟩
  · rintro ⟨a, b, hgap', hwide', hpasses⟩
    obtain ⟨rfl, rfl⟩ := hunique a b _ _ hgap' hgap hwide' hwide
    exact absurd hpasses (by decide)
  · intro hfar
    exact (howned (node 5).id rfl).mp hfar ⟨_, _, hgap, hwide, by decide⟩

end Overlay.LeafSet
