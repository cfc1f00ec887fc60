import Gittest.XRingThreads

/-!
# What the accesses to a slot do

The buffer of a slot is as large as its `size` says, and a caller's entry at least as large. Under
that no access of an enqueue or a dequeue faults, and a payload written into a slot and read out of
it again comes out as it went in.
-/

namespace Gittest

/-- The slot's buffer has the capacity its `size` says. -/
def XRingEntry.Sized (e : XRingEntry) : Prop := e.size = e.data.length

/-- The content lies within the buffer. -/
def XRingEntry.Filled (e : XRingEntry) : Prop :=
  0 ≤ e.contentLength ∧ e.contentLength ≤ e.data.length

def XRing.Sized (r : XRing) : Prop := ∀ e ∈ r.ring, e.Sized

def XRing.Holds (r : XRing) (i : Nat) (payload : Payload) : Prop :=
  ∃ e, r.ring[i]? = some e ∧ e.payload = payload

theorem XRingEntry.filled_of_payload {e : XRingEntry} {data : Buffer}
    (hpayload : e.payload = payloadOf data) : e.Filled := by
  have hlength : e.contentLength = data.length := congrArg Prod.fst hpayload
  have htake : e.data.take e.contentLength.toNat = data := congrArg Prod.snd hpayload
  have hle := congrArg List.length htake
  rw [List.length_take] at hle
  exact ⟨by omega, by omega⟩

theorem payloadOf_injective : Function.Injective payloadOf :=
  fun _ _ hpayload => congrArg Prod.snd hpayload

/-! ### One access -/

theorem XRingEntry.grow_spec {e : XRingEntry} {size : Int} (hsized : e.Sized) (hsize : 0 ≤ size) :
    ∃ e', e.grow size = .ok e' ∧ e'.Sized ∧ size ≤ e'.data.length := by
  by_cases hsmall : e.size < size
  · refine ⟨{ e with data := List.replicate size.toNat none, size := size }, ?_, ?_, ?_⟩
    · rw [XRingEntry.grow, if_pos hsmall, malloc_ok hsize]
      rfl
    · simp only [XRingEntry.Sized, List.length_replicate]
      omega
    · simp only [List.length_replicate]
      omega
  · refine ⟨e, by rw [XRingEntry.grow, if_neg hsmall]; rfl, hsized, ?_⟩
    unfold XRingEntry.Sized at hsized
    omega

theorem XRingEntry.copyIn_spec {e : XRingEntry} {data : Buffer} {size : Int} (hsized : e.Sized)
    (hsize : 0 ≤ size) (hroom : size ≤ e.data.length) (hdata : size ≤ data.length) :
    ∃ e', e.copyIn data size = .ok e' ∧ e'.Sized ∧ e'.data.length = e.data.length ∧
      e'.data.take size.toNat = data.take size.toNat := by
  have hcopy := memcpy_ok hsize hroom hdata
  have hlength := memcpy_length hcopy
  refine ⟨{ e with data := data.take size.toNat ++ e.data.drop size.toNat }, ?_, ?_, hlength,
    memcpy_take hcopy⟩
  · rw [XRingEntry.copyIn, hcopy]
    rfl
  · rw [XRingEntry.Sized] at hsized ⊢
    rw [hlength, hsized]

theorem XRingEntry.growOut_spec {slot out : XRingEntry} (hsized : slot.Sized)
    (hfilled : slot.Filled) (hfits : out.Fits) :
    ∃ out', slot.growOut out = .ok out' ∧ out'.Fits ∧ slot.contentLength ≤ out'.data.length := by
  unfold XRingEntry.Sized at hsized
  obtain ⟨hpos, hle⟩ := hfilled
  by_cases hsmall : out.size < slot.contentLength
  · refine ⟨{ out with data := List.replicate slot.size.toNat none }, ?_, ?_, ?_⟩
    · rw [XRingEntry.growOut, if_pos hsmall, malloc_ok (by omega)]
      rfl
    · simp only [XRingEntry.Fits, List.length_replicate]
      omega
    · simp only [List.length_replicate]
      omega
  · refine ⟨out, by rw [XRingEntry.growOut, if_neg hsmall]; rfl, hfits, ?_⟩
    unfold XRingEntry.Fits at hfits
    omega

theorem XRingEntry.copyOut_spec {slot out : XRingEntry} (hfilled : slot.Filled)
    (hfits : out.Fits) (hroom : slot.contentLength ≤ out.data.length) :
    ∃ out', slot.copyOut out = .ok out' ∧ out'.Fits ∧
      out'.data.take slot.contentLength.toNat = slot.data.take slot.contentLength.toNat := by
  have hcopy := memcpy_ok hfilled.1 hroom hfilled.2
  refine ⟨{ out with
    data := slot.data.take slot.contentLength.toNat ++ out.data.drop slot.contentLength.toNat },
    ?_, ?_, memcpy_take hcopy⟩
  · rw [XRingEntry.copyOut, hcopy]
    rfl
  · rw [XRingEntry.Fits] at hfits ⊢
    rw [memcpy_length hcopy]
    exact hfits

theorem XRingEntry.setOutLength_payload {slot out : XRingEntry}
    (htake : out.data.take slot.contentLength.toNat = slot.data.take slot.contentLength.toNat) :
    ({ out with contentLength := slot.contentLength } : XRingEntry).payload = slot.payload := by
  rw [XRingEntry.payload, XRingEntry.payload, htake]

/-! ### Accesses within the ring -/

section Ring

variable {r : XRing} {i : UInt32} {j : Nat} {e : XRingEntry} {payload : Payload}

theorem XRing.exists_entry (hi : i.toNat < r.ring.length) :
    ∃ e, r.ring[i.toNat]? = some e ∧ r.entry i = .ok e :=
  ⟨r.ring[i.toNat], List.getElem?_eq_getElem hi, by
    rw [XRing.entry, List.getElem?_eq_getElem hi]⟩

theorem XRing.entry_eq (he : r.ring[i.toNat]? = some e) : r.entry i = .ok e := by
  rw [XRing.entry, he]

theorem XRing.Sized.of_getElem? (hsized : r.Sized) (he : r.ring[j]? = some e) : e.Sized :=
  hsized e (List.mem_of_getElem? he)

def XRing.put (r : XRing) (i : UInt32) (e : XRingEntry) : XRing :=
  { r with ring := r.ring.set i.toNat e }

theorem XRing.modify_eq {f : XRingEntry → Except Fault XRingEntry} {e' : XRingEntry}
    (he : r.ring[i.toNat]? = some e) (hf : f e = .ok e') : r.modify i f = .ok (r.put i e') := by
  rw [XRing.modify, XRing.entry_eq he]
  change f e >>= _ = _
  rw [hf]
  rfl

theorem XRing.modify_error {f : XRingEntry → Except Fault XRingEntry} {fault : Fault}
    (he : r.ring[i.toNat]? = some e) (hf : f e = .error fault) : r.modify i f = .error fault := by
  rw [XRing.modify, XRing.entry_eq he]
  change f e >>= _ = _
  rw [hf]
  rfl

@[simp]
theorem XRing.put_length : (r.put i e).ring.length = r.ring.length := List.length_set

theorem XRing.put_self (hi : i.toNat < r.ring.length) : (r.put i e).ring[i.toNat]? = some e :=
  List.getElem?_set_self hi

theorem XRing.put_of_ne (hne : i.toNat ≠ j) : (r.put i e).ring[j]? = r.ring[j]? :=
  List.getElem?_set_ne hne

theorem XRing.Sized.put (hsized : r.Sized) (he : e.Sized) : (r.put i e).Sized := by
  intro e' hmem
  rcases List.mem_or_eq_of_mem_set hmem with hold | rfl
  · exact hsized e' hold
  · exact he

theorem XRing.Holds.put_of_ne (hholds : r.Holds j payload) (hne : i.toNat ≠ j) :
    (r.put i e).Holds j payload := by
  obtain ⟨e', he', hpayload⟩ := hholds
  exact ⟨e', by rw [XRing.put_of_ne hne, he'], hpayload⟩

theorem XRing.holds_put (hi : i.toNat < r.ring.length) (hpayload : e.payload = payload) :
    (r.put i e).Holds i.toNat payload :=
  ⟨e, XRing.put_self hi, hpayload⟩

end Ring

end Gittest
