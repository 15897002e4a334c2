import WirelessMesh.Maodv.Network

/-!
# What a step makes of a node's routes

A node's own addresses are exactly its self routes; every other address has at
most one entry. During a step each entry for another address has one of four
fates: it keeps its number and next hop, it is given up, it is taken from an
advertisement under a number the node has never held, or it leads straight to the
destination. The edits of the table keep this, and so do the handlers.
-/

namespace WirelessMesh
namespace Maodv

open Routes

variable {env : Env} {own : List U32} {my : ℕ}

/-- The table of a node with the addresses `own`, whose `myRoute` is `my`. -/
structure Home (own : List U32) (my : ℕ) (t : RouteTable) : Prop where
  self_iff : ∀ c ∈ t.cells, c.2.selfRoute = true ↔ c.2.ip ∈ own
  valid : ∀ c ∈ t.cells, c.2.ip ∈ own → c.2.routeValid = true
  here : ∀ a ∈ own, ∃ c ∈ t.cells, c.2.ip = a
  distinct : ∀ c ∈ t.cells, ∀ c' ∈ t.cells, c.2.ip = c'.2.ip → c.2.ip ∉ own → c = c'
  mine : ∃ r, (my, r) ∈ t.cells ∧ r.ip ∈ own

/-- The table a step starts from, with the peak of the numbers held for every
address and what has been advertised: destination, number and next hop. -/
structure Base (own : List U32) where
  routes : RouteTable
  peak : U32 → ℕ
  offer : U32 → U32 → U32 → Prop
  sharp : ∀ c ∈ routes.cells, c.2.ip ∉ own → c.2.seq.toNat + 1 = peak c.2.ip
  bound : ∀ c ∈ routes.cells, c.2.seq.toNat + 1 < 2 ^ 31

inductive Fate (B : Base own) (r : MeshRoute) : Prop
  | kept {p : ℕ} {r₀ : MeshRoute} (hr : (p, r₀) ∈ B.routes.cells) (hip : r.ip = r₀.ip)
      (hseq : r.seq = r₀.seq) (hvalid : r.routeValid = r₀.routeValid)
      (hhop : r.nextHop = r₀.nextHop)
  | retired (hvalid : r.routeValid = false) (hpeak : B.peak r.ip ≤ r.seq.toNat + 1)
  | adopted (hoffer : B.offer r.ip r.seq r.nextHop) (hbound : r.seq.toNat < 2 ^ 31)
      (hpeak : B.peak r.ip ≤ r.seq.toNat)
  | direct (hhop : r.nextHop = r.ip) (hbound : r.seq.toNat < 2 ^ 31)
      (hpeak : B.peak r.ip ≤ r.seq.toNat + 1)

theorem toNat_succ {s : U32} (h : s.toNat < 2 ^ 31) : (s + 1).toNat = s.toNat + 1 := by
  bv_omega

namespace Fate

variable {B : Base own} {r r' : MeshRoute}

theorem congr (h : Fate B r) (hip : r'.ip = r.ip) (hseq : r'.seq = r.seq)
    (hvalid : r'.routeValid = r.routeValid) (hhop : r'.nextHop = r.nextHop) : Fate B r' := by
  cases h with
  | kept hr h₁ h₂ h₃ h₄ =>
      exact .kept hr (hip.trans h₁) (hseq.trans h₂) (hvalid.trans h₃) (hhop.trans h₄)
  | retired h₁ h₂ => exact .retired (hvalid.trans h₁) (by rwa [hip, hseq])
  | adopted h₁ h₂ h₃ =>
      exact .adopted (by rwa [hip, hseq, hhop]) (by rwa [hseq]) (by rwa [hip, hseq])
  | direct h₁ h₂ h₃ =>
      exact .direct (by rw [hhop, h₁, hip]) (by rwa [hseq]) (by rwa [hip, hseq])

/-- An entry that is not given up has a number below half the circle and not
behind the peak. -/
theorem bounds (h : Fate B r) (hown : r.ip ∉ own) :
    r.routeValid = false ∨ (r.seq.toNat < 2 ^ 31 ∧ B.peak r.ip ≤ r.seq.toNat + 1) := by
  cases h with
  | kept hr hip hseq _ _ =>
      right
      have hsharp := B.sharp _ hr (by rwa [← hip])
      have hbound := B.bound _ hr
      rw [hip, hseq]
      simp only at hsharp hbound
      omega
  | retired hv _ => exact .inl hv
  | adopted _ hb hp => exact .inr ⟨hb, by omega⟩
  | direct _ hb hp => exact .inr ⟨hb, hp⟩

theorem peak_le (h : Fate B r) (hown : r.ip ∉ own) : B.peak r.ip ≤ r.seq.toNat + 1 := by
  cases h with
  | kept hr hip hseq _ _ =>
      rw [hip, hseq]
      exact (B.sharp _ hr (by rwa [← hip])).ge
  | retired _ hp => exact hp
  | adopted _ _ hp => omega
  | direct _ _ hp => exact hp

theorem worn (h : Fate B r) (hown : r.ip ∉ own) (hw : Worn env r r') : Fate B r' := by
  rcases hw with rfl | ⟨_, hv, rfl⟩
  · exact h
  · cases hd : r.dev with
    | none => simpa [routeExpire, hd] using h
    | some dev =>
        have hb := h.bounds hown
        simp only [hv, Bool.true_eq_false, false_or] at hb
        refine .retired (by simp [routeExpire, hd]) ?_
        simp only [routeExpire, hd, toNat_succ hb.1]
        omega

end Fate

theorem Worn.seq_le {r r' : MeshRoute} (hw : Worn env r r') (hb : r.seq.toNat < 2 ^ 31) :
    r.seq.toNat ≤ r'.seq.toNat ∧ r'.seq.toNat ≤ r.seq.toNat + 1 := by
  rcases hw with rfl | ⟨_, _, rfl⟩
  · omega
  · cases hd : r.dev with
    | none => simp only [routeExpire, hd]; omega
    | some dev => simp only [routeExpire, hd, toNat_succ hb]; omega

theorem Base.worn_seq (B : Base own) {p : ℕ} {r₀ r : MeshRoute} (hr : (p, r₀) ∈ B.routes.cells)
    (hw : Worn env r₀ r) : r₀.seq.toNat ≤ r.seq.toNat ∧ r.seq.toNat < 2 ^ 31 := by
  have hb : r₀.seq.toNat + 1 < 2 ^ 31 := B.bound _ hr
  have hs := hw.seq_le (by omega)
  omega

structure Standing (my : ℕ) (B : Base own) (t : RouteTable) : Prop extends Home own my t where
  fate : ∀ c ∈ t.cells, c.2.ip ∉ own → Fate B c.2

theorem Standing.refl {B : Base own} (h : Home own my B.routes) : Standing my B B.routes where
  toHome := h
  fate := fun _ hc _ => .kept hc rfl rfl rfl rfl

theorem Home.firstRoute_ne_none {t : RouteTable} (h : Home own my t) {a : U32} (ha : a ∈ own) :
    firstRoute t a ≠ none := by
  intro hnone
  obtain ⟨⟨p, r⟩, hc, hip⟩ := h.here a ha
  exact firstRoute_none hnone hc hip

theorem Home.firstRoute_valid {t : RouteTable} (h : Home own my t) {a : U32} (ha : a ∈ own) :
    ∃ p r, firstRoute t a = some (p, r) ∧ r.routeValid = true := by
  obtain ⟨⟨p, r⟩, hr⟩ := Option.ne_none_iff_exists'.mp (h.firstRoute_ne_none ha)
  refine ⟨p, r, hr, h.valid _ (firstRoute_mem hr) ?_⟩
  rwa [firstRoute_ip hr]

namespace Standing

variable {B : Base own} {t t' : RouteTable}

theorem worn (h : Standing my B t) (hw : WornTable env t t') : Standing my B t' where
  self_iff := by
    rintro ⟨p, r'⟩ hc
    obtain ⟨r, hr, hrr⟩ := hw.mem_left hc
    simpa [hrr.selfRoute, hrr.ip] using h.self_iff _ hr
  valid := by
    rintro ⟨p, r'⟩ hc hown
    obtain ⟨r, hr, hrr⟩ := hw.mem_left hc
    have hown' : r.ip ∈ own := by rwa [← hrr.ip]
    rw [hrr.eq_of_self ((h.self_iff _ hr).mpr hown')]
    exact h.valid _ hr hown'
  here := by
    intro a ha
    obtain ⟨⟨p, r⟩, hr, hip⟩ := h.here a ha
    obtain ⟨r', hr', hrr⟩ := hw.mem_right hr
    exact ⟨(p, r'), hr', hrr.ip.trans hip⟩
  distinct := by
    rintro ⟨p, r'⟩ hc ⟨q, s'⟩ hc' hip hown
    obtain ⟨r, hr, hrr⟩ := hw.mem_left hc
    obtain ⟨s, hs, hss⟩ := hw.mem_left hc'
    have heq := h.distinct _ hr _ hs (by simpa [hrr.ip, hss.ip] using hip)
      (by simpa [hrr.ip] using hown)
    obtain ⟨rfl, -⟩ := Prod.mk.inj heq
    rw [HeapList.eq_of_mem hc hc']
  mine := by
    obtain ⟨r, hr, hown⟩ := h.mine
    obtain ⟨r', hr', hrr⟩ := hw.mem_right hr
    exact ⟨r', hr', by rwa [hrr.ip]⟩
  fate := by
    rintro ⟨p, r'⟩ hc hown
    obtain ⟨r, hr, hrr⟩ := hw.mem_left hc
    have hown' : r.ip ∉ own := by rwa [← hrr.ip]
    exact (h.fate _ hr hown').worn hown' hrr

/-- A write in place that keeps address, kind and, on own addresses, validity. -/
theorem modify (h : Standing my B t) {p : ℕ} {f : MeshRoute → MeshRoute}
    (hip : ∀ r, (f r).ip = r.ip) (hself : ∀ r, (f r).selfRoute = r.selfRoute)
    (hvalid : ∀ r, r.routeValid = true → (f r).routeValid = true)
    (hfate : ∀ r, (p, r) ∈ t.cells → r.ip ∉ own → Fate B (f r)) :
    Standing my B (t.modify p f) where
  self_iff := by
    rintro ⟨q, r'⟩ hc
    obtain ⟨r, hr, rfl⟩ := HeapList.mem_modify.mp hc
    have hiff := h.self_iff _ hr
    split_ifs <;> simpa [hip, hself] using hiff
  valid := by
    rintro ⟨q, r'⟩ hc hown
    obtain ⟨r, hr, rfl⟩ := HeapList.mem_modify.mp hc
    split_ifs at hown ⊢ with hq
    · exact hvalid r (h.valid _ hr (by simpa [hq, hip] using hown))
    · exact h.valid _ hr (by simpa [hq] using hown)
  here := by
    intro a ha
    obtain ⟨⟨q, r⟩, hr, hr'⟩ := h.here a ha
    refine ⟨_, HeapList.mem_modify.mpr ⟨r, hr, rfl⟩, ?_⟩
    split_ifs
    · exact (hip r).trans hr'
    · exact hr'
  distinct := by
    rintro ⟨q, r'⟩ hc ⟨q', s'⟩ hc' heq hown
    obtain ⟨r, hr, rfl⟩ := HeapList.mem_modify.mp hc
    obtain ⟨s, hs, rfl⟩ := HeapList.mem_modify.mp hc'
    have hipif : ∀ (b : Prop) [Decidable b] (x : MeshRoute), (if b then f x else x).ip = x.ip := by
      intro b _ x
      split_ifs
      · exact hip x
      · rfl
    simp only [hipif] at heq hown
    obtain ⟨rfl, rfl⟩ := Prod.mk.inj (h.distinct _ hr _ hs heq hown)
    rfl
  mine := by
    obtain ⟨r, hr, hown⟩ := h.mine
    refine ⟨_, HeapList.mem_modify.mpr ⟨r, hr, rfl⟩, ?_⟩
    split_ifs
    · rwa [hip]
    · exact hown
  fate := by
    rintro ⟨q, r'⟩ hc hown
    obtain ⟨r, hr, rfl⟩ := HeapList.mem_modify.mp hc
    split_ifs at hown ⊢ with hq
    · subst hq
      exact hfate r hr (by simpa [hip] using hown)
    · exact h.fate _ hr (by simpa [hq] using hown)

theorem push (h : Standing my B t) {r : MeshRoute} (hnone : firstRoute t r.ip = none)
    (hself : r.selfRoute = false) (hfate : Fate B r) : Standing my B (t.push r) where
  self_iff := by
    intro c hc
    rcases List.mem_cons.mp hc with rfl | hc
    · have hown : r.ip ∉ own := fun ha => h.firstRoute_ne_none ha hnone
      simp [hself, hown]
    · exact h.self_iff c hc
  valid := by
    intro c hc hown
    rcases List.mem_cons.mp hc with rfl | hc
    · exact absurd hnone (h.firstRoute_ne_none hown)
    · exact h.valid c hc hown
  here := by
    intro a ha
    obtain ⟨c, hc, hip⟩ := h.here a ha
    exact ⟨c, List.mem_cons_of_mem _ hc, hip⟩
  distinct := by
    intro c hc c' hc' hip hown
    rcases List.mem_cons.mp hc with rfl | hc
    · rcases List.mem_cons.mp hc' with rfl | hc'
      · rfl
      · exact absurd hip.symm (firstRoute_none hnone hc')
    · rcases List.mem_cons.mp hc' with rfl | hc'
      · exact absurd hip (firstRoute_none hnone hc)
      · exact h.distinct c hc c' hc' hip hown
  mine := by
    obtain ⟨r', hr', hown⟩ := h.mine
    exact ⟨r', List.mem_cons_of_mem _ hr', hown⟩
  fate := by
    intro c hc hown
    rcases List.mem_cons.mp hc with rfl | hc
    · exact hfate
    · exact h.fate c hc hown

theorem unlink (h : Standing my B t) (hsub : ∀ c ∈ t'.cells, c ∈ t.cells)
    (hkeep : ∀ c ∈ t.cells, c.2.selfRoute = true → c ∈ t'.cells) : Standing my B t' where
  self_iff := fun c hc => h.self_iff c (hsub c hc)
  valid := fun c hc => h.valid c (hsub c hc)
  here := by
    intro a ha
    obtain ⟨c, hc, hip⟩ := h.here a ha
    exact ⟨c, hkeep c hc ((h.self_iff c hc).mpr (hip ▸ ha)), hip⟩
  distinct := fun c hc c' hc' => h.distinct c (hsub c hc) c' (hsub c' hc')
  mine := by
    obtain ⟨r, hr, hown⟩ := h.mine
    exact ⟨r, hkeep _ hr ((h.self_iff _ hr).mpr hown), hown⟩
  fate := fun c hc => h.fate c (hsub c hc)

end Standing

end Maodv
end WirelessMesh
