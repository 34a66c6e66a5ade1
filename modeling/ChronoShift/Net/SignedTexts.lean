import ChronoShift.Net.KeyAgreement

/-!
# What the identity key signs

The shares, relayed messages and trust signatures of a node are signed with one identity key. Each
format begins with a domain of its own, and gives the length of a field of variable length before
the field, so the signed bytes determine the format and all fields.

* `ApplicationText.domain_of_bytes_eq`: equal bytes have one domain;
* `ApplicationText.bytes_inj`: the bytes determine the text.
-/

namespace ChronoShift

namespace ApplicationText

/-- The fields of variable length are shorter than `2 ^ 32` bytes, and the integers are in the range
of their type. -/
def InRange : ApplicationText → Prop
  | .share channel roundId xored =>
    (asBytes channel).length < 2 ^ 32 ∧ roundId < 2 ^ 64 ∧ xored.length < 2 ^ 32
  | .relay fromUid toUid nonce timestamp payload =>
    (asBytes fromUid).length < 2 ^ 32 ∧ (asBytes toUid).length < 2 ^ 32 ∧ nonce < 2 ^ 64 ∧
      timestamp < 2 ^ 64 ∧ payload.length < 2 ^ 32
  | .trust subjectFp _ timestamp => (asBytes subjectFp).length < 2 ^ 32 ∧ timestamp < 2 ^ 64

/-- The domain that a text begins with. -/
def domain : ApplicationText → Bytes
  | .share _ _ _ => shareSigDomain
  | .relay _ _ _ _ _ => relaySigDomain
  | .trust _ _ _ => asBytes "chrono-wot-sign-v1"

/-- What follows the domain. -/
def fields : ApplicationText → Bytes
  | .share channel roundId xored =>
    beBytes 4 (asBytes channel).length ++ (asBytes channel ++ (beBytes 8 roundId ++ xored))
  | .relay fromUid toUid nonce timestamp payload =>
    beBytes 4 (asBytes fromUid).length ++ (asBytes fromUid ++
      (beBytes 4 (asBytes toUid).length ++ (asBytes toUid ++
        (beBytes 8 nonce ++ (beBytes 8 timestamp ++ (beBytes 4 payload.length ++ payload))))))
  | .trust subjectFp trustLevel timestamp =>
    beBytes 4 (asBytes subjectFp).length ++
      (asBytes subjectFp ++ ([trustLevel] ++ beBytes 8 timestamp))

theorem bytes_eq (text : ApplicationText) : text.bytes = text.domain ++ text.fields := by
  cases text with
  | share channel roundId xored =>
    simp only [bytes, shareSignatureMessage, domain, fields, List.append_assoc]
  | relay fromUid toUid nonce timestamp payload =>
    simp only [bytes, relaySignatureMessage, domain, fields, List.append_assoc]
  | trust subjectFp trustLevel timestamp =>
    simp only [bytes, signatureMessage, domain, fields, List.append_assoc]

/-- The domains of the three formats. -/
def domains : List Bytes := [shareSigDomain, relaySigDomain, asBytes "chrono-wot-sign-v1"]

theorem domain_mem (text : ApplicationText) : text.domain ∈ domains := by
  cases text <;> simp [domain, domains]

/-- Two domains differ within their first eight bytes. -/
theorem domains_spec : ∀ d ∈ domains, 8 ≤ d.length ∧
    ∀ d' ∈ domains, d.take 8 = d'.take 8 → d = d' := by
  decide

/-- Equal bytes have one domain, whatever the fields are. -/
theorem domain_of_bytes_eq {a b : ApplicationText} (h : a.bytes = b.bytes) :
    a.domain = b.domain := by
  have htake : ∀ text : ApplicationText, text.bytes.take 8 = text.domain.take 8 := by
    intro text
    rw [bytes_eq, List.take_append_of_le_length (domains_spec _ text.domain_mem).1]
  refine (domains_spec _ a.domain_mem).2 _ b.domain_mem ?_
  rw [← htake, ← htake, h]

/-- The fields of a text determine it among the texts of its domain. -/
theorem eq_of_fields_eq {a b : ApplicationText} (ha : a.InRange) (hb : b.InRange)
    (hdomain : a.domain = b.domain) (h : a.fields = b.fields) : a = b := by
  have hsr : shareSigDomain ≠ relaySigDomain := by decide
  have hst : shareSigDomain ≠ asBytes "chrono-wot-sign-v1" := by decide
  have hrt : relaySigDomain ≠ asBytes "chrono-wot-sign-v1" := by decide
  -- texts of two kinds have different domains; within a kind the fields are read off in order
  cases a with
  | share channel roundId xored =>
    cases b with
    | share channel' roundId' xored' =>
      obtain ⟨hchannel, h⟩ := ToMathlib.lengthPrefixed_append_inj ha.1 hb.1 h
      obtain ⟨hround, hxored⟩ := ToMathlib.beBytes_append_inj ha.2.1 hb.2.1 h
      rw [asBytes_injective hchannel, hround, hxored]
    | relay => exact absurd hdomain hsr
    | trust => exact absurd hdomain hst
  | relay fromUid toUid nonce timestamp payload =>
    cases b with
    | relay fromUid' toUid' nonce' timestamp' payload' =>
      obtain ⟨hfrom, h⟩ := ToMathlib.lengthPrefixed_append_inj ha.1 hb.1 h
      obtain ⟨hto, h⟩ := ToMathlib.lengthPrefixed_append_inj ha.2.1 hb.2.1 h
      obtain ⟨hnonce, h⟩ := ToMathlib.beBytes_append_inj ha.2.2.1 hb.2.2.1 h
      obtain ⟨htime, h⟩ := ToMathlib.beBytes_append_inj ha.2.2.2.1 hb.2.2.2.1 h
      obtain ⟨-, hpayload⟩ := ToMathlib.beBytes_append_inj ha.2.2.2.2 hb.2.2.2.2 h
      rw [asBytes_injective hfrom, asBytes_injective hto, hnonce, htime, hpayload]
    | share => exact absurd hdomain hsr.symm
    | trust => exact absurd hdomain hrt
  | trust subjectFp trustLevel timestamp =>
    cases b with
    | trust subjectFp' trustLevel' timestamp' =>
      obtain ⟨hsubject, h⟩ := ToMathlib.lengthPrefixed_append_inj ha.1 hb.1 h
      obtain ⟨hlevel, h⟩ := List.cons.inj h
      obtain ⟨htime, -⟩ := ToMathlib.beBytes_append_inj (r := []) (s := []) ha.2 hb.2
        (congrArg (· ++ []) h)
      rw [asBytes_injective hsubject, hlevel, htime]
    | share => exact absurd hdomain hst.symm
    | relay => exact absurd hdomain hrt.symm

/-- The signed bytes determine the format and every field. -/
theorem bytes_inj {a b : ApplicationText} (ha : a.InRange) (hb : b.InRange) :
    a.bytes = b.bytes ↔ a = b := by
  constructor
  · intro h
    have hdomain := domain_of_bytes_eq h
    rw [bytes_eq, bytes_eq, hdomain] at h
    exact eq_of_fields_eq ha hb hdomain (List.append_cancel_left h)
  · rintro rfl
    rfl

/-- A byte moved from one field to the next changes the signed bytes. -/
theorem bytes_inj_moved_byte :
    (relay "ab" "c" 1 2 []).bytes ≠ (relay "a" "bc" 1 2 []).bytes := by
  have hrange : (relay "ab" "c" 1 2 []).InRange ∧ (relay "a" "bc" 1 2 []).InRange := by
    refine ⟨⟨?_, ?_, ?_, ?_, ?_⟩, ⟨?_, ?_, ?_, ?_, ?_⟩⟩ <;> decide
  exact (bytes_inj hrange.1 hrange.2).not.mpr (by simp)

end ApplicationText

end ChronoShift
