import Zeptoclaw.Spec.Http

/-!
# IPv4 addresses inside IPv6 addresses

An address may be of two transition formats at once: the interface id of ISATAP may stand behind
the prefix of 6to4 or of Teredo. `embedded_seen_iff`: the check sees every private IPv4 address
in an address except the one in the interface id behind a prefix that embeds a public one.
-/

namespace Zeptoclaw

/-- The transition formats that the check knows. -/
inductive TransitionFormat where
  | mapped
  | compatible
  | nat64
  | sixToFour
  | teredo
  | isatap
  deriving DecidableEq, Repr

namespace TransitionFormat

/-- The address has the format. -/
def Applies (ip : Ipv6Addr) : TransitionFormat → Prop
  | mapped => ip.s0 = 0 ∧ ip.s1 = 0 ∧ ip.s2 = 0 ∧ ip.s3 = 0 ∧ ip.s4 = 0 ∧ ip.s5 = 0xffff
  | compatible => ip.s0 = 0 ∧ ip.s1 = 0 ∧ ip.s2 = 0 ∧ ip.s3 = 0 ∧ ip.s4 = 0 ∧ ip.s5 = 0
  | nat64 => ip.s0 = 0x0064 ∧ ip.s1 = 0xff9b ∧ ip.s2 = 0 ∧ ip.s3 = 0 ∧ ip.s4 = 0 ∧ ip.s5 = 0
  | sixToFour => ip.s0 = 0x2002
  | teredo => ip.s0 = 0x2001 ∧ ip.s1 = 0
  | isatap => (ip.s4 = 0 ∨ ip.s4 = 0x0200) ∧ ip.s5 = 0x5efe

/-- The IPv4 address that an address of the format embeds. -/
def embedded (ip : Ipv6Addr) : TransitionFormat → Ipv4Addr
  | mapped | compatible | nat64 | isatap => embeddedIpv4 ip.s6 ip.s7
  | sixToFour => embeddedIpv4 ip.s1 ip.s2
  | teredo => embeddedIpv4 (~~~ip.s6) (~~~ip.s7)

/-- The address has the format and embeds a private IPv4 address. -/
def Private (ip : Ipv6Addr) (f : TransitionFormat) : Prop :=
  f.Applies ip ∧ isPrivateOrLocalIpv4 (f.embedded ip) = true

/-- The address has the format and embeds an IPv4 address that is not private. -/
def Public (ip : Ipv6Addr) (f : TransitionFormat) : Prop :=
  f.Applies ip ∧ isPrivateOrLocalIpv4 (f.embedded ip) = false

end TransitionFormat

open TransitionFormat

variable {ip : Ipv6Addr}

/-- An address with the prefix of 6to4 is in no reserved range, and only its own IPv4 address
counts. -/
theorem private_eq_of_sixToFour (h : sixToFour.Applies ip) :
    isPrivateOrLocalIpv6 ip = isPrivateOrLocalIpv4 (sixToFour.embedded ip) := by
  obtain ⟨s0, s1, s2, s3, s4, s5, s6, s7⟩ := ip
  simp only [Applies] at h
  subst h
  have hlocal : ¬ (0x2002#16 &&& 0xfe00#16 = 0xfc00#16) := by decide
  have hlink : ¬ (0x2002#16 &&& 0xffc0#16 = 0xfe80#16) := by decide
  have hmulti : ¬ (0x2002#16 &&& 0xff00#16 = 0xff00#16) := by decide
  simp [isPrivateOrLocalIpv6, embedded, hlocal, hlink, hmulti, -BitVec.reduceAnd]

/-- The same for Teredo. -/
theorem private_eq_of_teredo (h : teredo.Applies ip) :
    isPrivateOrLocalIpv6 ip = isPrivateOrLocalIpv4 (teredo.embedded ip) := by
  obtain ⟨s0, s1, s2, s3, s4, s5, s6, s7⟩ := ip
  obtain ⟨h0, h1⟩ := h
  simp only at h0 h1
  subst h0 h1
  have hlocal : ¬ (0x2001#16 &&& 0xfe00#16 = 0xfc00#16) := by decide
  have hlink : ¬ (0x2001#16 &&& 0xffc0#16 = 0xfe80#16) := by decide
  have hmulti : ¬ (0x2001#16 &&& 0xff00#16 = 0xff00#16) := by decide
  simp [isPrivateOrLocalIpv6, embedded, hlocal, hlink, hmulti, -BitVec.reduceAnd]

/-- Behind a prefix the IPv4 address is looked at, unless the address is private anyway. -/
theorem seen_of_prefix {f : TransitionFormat} (hf : f ≠ .isatap) (h : f.Private ip) : isPrivateOrLocalIpv6 ip = true := by
  obtain ⟨happ, hpriv⟩ := h
  cases f with
  | sixToFour => rw [private_eq_of_sixToFour happ, hpriv]
  | teredo => rw [private_eq_of_teredo happ, hpriv]
  | isatap => exact absurd rfl hf
  | mapped | compatible | nat64 =>
    obtain ⟨s0, s1, s2, s3, s4, s5, s6, s7⟩ := ip
    obtain ⟨h0, h1, h2, h3, h4, h5⟩ := happ
    simp only at h0 h1 h2 h3 h4 h5
    subst h0 h1 h2 h3 h4 h5
    unfold isPrivateOrLocalIpv6
    split
    · rfl
    · simpa [embedded] using hpriv

/-- Behind the prefixes of 6to4 and of Teredo nothing else is looked at. -/
theorem unseen_of_public (h : sixToFour.Public ip ∨ teredo.Public ip) : isPrivateOrLocalIpv6 ip = false := by
  rcases h with ⟨happ, hpub⟩ | ⟨happ, hpub⟩
  · rw [private_eq_of_sixToFour happ, hpub]
  · rw [private_eq_of_teredo happ, hpub]

/-- The interface id is looked at in an address of no other format. -/
theorem seen_of_isatap (h : isatap.Private ip) (h64 : ¬ sixToFour.Applies ip) (ht : ¬ teredo.Applies ip) :
    isPrivateOrLocalIpv6 ip = true := by
  obtain ⟨⟨h4, h5⟩, hpriv⟩ := h
  obtain ⟨s0, s1, s2, s3, s4, s5, s6, s7⟩ := ip
  simp only [Applies] at h4 h5 h64 ht
  subst h5
  unfold isPrivateOrLocalIpv6
  split
  · rfl
  · have h6 : ¬ s0 = 0x2002#16 := h64
    have hteredo : ¬ (s0 = 0x2001#16 ∧ s1 = 0#16) := ht
    have hid : s4 = 0#16 ∨ s4 = 0x0200#16 := h4
    simpa [embedded, h6, hteredo, hid] using hpriv

/-- **Embedded addresses.** An address that embeds a private one is seen as private, exactly if it does not embed it in an
ISATAP id behind a 6to4 or Teredo prefix with a public one. -/
theorem embedded_seen_iff (ip : Ipv6Addr) :
    ((∃ f : TransitionFormat, f.Private ip) → isPrivateOrLocalIpv6 ip = true) ↔
      ¬ (isatap.Private ip ∧ (sixToFour.Public ip ∨ teredo.Public ip)) := by
  constructor
  · rintro hseen ⟨hisatap, hpublic⟩
    have hunseen : isPrivateOrLocalIpv6 ip = false := unseen_of_public hpublic
    rw [hseen ⟨_, hisatap⟩] at hunseen
    exact nomatch hunseen
  · rintro hnot ⟨f, hf⟩
    by_cases hisatap : f = .isatap
    · subst hisatap
      have hown : ∀ g : TransitionFormat, g ≠ .isatap → ¬ g.Public ip → g.Applies ip →
          isPrivateOrLocalIpv6 ip = true := by
        intro g hg hnp happ
        have hpriv : isPrivateOrLocalIpv4 (g.embedded ip) = true := by
          by_contra hfalse
          exact hnp ⟨happ, Bool.eq_false_iff.mpr hfalse⟩
        exact seen_of_prefix hg ⟨happ, hpriv⟩
      by_cases h64 : sixToFour.Applies ip
      · exact hown .sixToFour (by decide) (fun h => hnot ⟨hf, .inl h⟩) h64
      by_cases ht : teredo.Applies ip
      · exact hown .teredo (by decide) (fun h => hnot ⟨hf, .inr h⟩) ht
      exact seen_of_isatap hf h64 ht
    · exact seen_of_prefix hisatap hf

/-- The 6to4 address of 8.8.8.8 with the interface id of 10.0.0.1. -/
theorem embedded_not_seen :
    isatap.Private ⟨0x2002, 0x0808, 0x0808, 0, 0, 0x5efe, 0x0a00, 0x0001⟩ ∧
      isPrivateOrLocalIpv6 ⟨0x2002, 0x0808, 0x0808, 0, 0, 0x5efe, 0x0a00, 0x0001⟩ = false := by
  refine ⟨⟨⟨.inl rfl, rfl⟩, by decide⟩, by decide⟩

end Zeptoclaw
