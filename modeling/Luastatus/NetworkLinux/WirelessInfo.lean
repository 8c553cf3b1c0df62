import Luastatus.Lib.Bytes

/-!
# The SSID of a wireless network

The kernel returns the information elements of a network as a chain: an identifier, the size of the
body, the body, and the next element.  `find_ssid` looks for the first element with the identifier
of an SSID.  The sizes are data, so an element may reach beyond the end of the buffer.

`findSsid` reads from the buffer itself, and its result is nothing if a read is out of bounds.
`findSsid_reports` says that this does not happen, and what is found.
-/

namespace Luastatus.NetworkLinux

open Text (Byte Bytes)

/-! ## The code -/

/-- `WLAN_EID_SSID`. -/
def wlanEidSsid : Byte := 0

/-- `cur_len` does not overflow. -/
theorem toNat_curLen (size : Byte) : (size.toUInt32 + 2).toNat = size.toNat + 2 := by
  have hsize := size.toNat_lt
  have htwo : (2 : UInt32).toNat = 2 := rfl
  rw [UInt32.toNat_add, UInt8.toNat_toUInt32, htwo]
  omega

/-- The element does not reach beyond the end, so what remains is shorter. -/
theorem toNat_remaining {iesLen : UInt32} {size : Byte} (h : ¬ size.toUInt32 + 2 > iesLen) :
    size.toNat + 2 ≤ iesLen.toNat ∧
      (iesLen - (size.toUInt32 + 2)).toNat = iesLen.toNat - (size.toNat + 2) := by
  have hle : size.toUInt32 + 2 ≤ iesLen := UInt32.not_lt.mp h
  rw [UInt32.toNat_sub_of_le _ _ hle, toNat_curLen]
  have hle' := UInt32.le_iff_toNat_le.mp hle
  rw [toNat_curLen] at hle'
  exact ⟨hle', rfl⟩

/-- `find_ssid`: `*ssid`, as an index of the buffer or nothing for `NULL`, and `*ssid_len`.  The
pointer `ies` is the index at which what remains of the buffer begins. -/
def findSsid (buf : Bytes) (ies : Nat) (iesLen : UInt32) : Option (Option Nat × UInt32) :=
  if iesLen < 2 then some (none, 0)
  else
    match buf[ies + 1]? with
    | none => none
    | some size =>
        if _h : size.toUInt32 + 2 > iesLen then some (none, 0)
        else
          match buf[ies]? with
          | none => none
          | some eid =>
              if eid = wlanEidSsid then some (some (ies + 2), size.toUInt32 + 2 - 2)
              else
                findSsid buf (ies + (size.toUInt32 + 2).toNat) (iesLen - (size.toUInt32 + 2))
termination_by iesLen.toNat
decreasing_by
  have := toNat_remaining _h
  omega

/-! ## Chains of elements -/

/-- The first SSID element of a chain begins its body at the index `off`, and all elements up to it
are inside of the chain. -/
inductive FirstSsid : Bytes → Nat → Bytes → Prop where
  | here {size : Byte} {body rest : Bytes} :
      body.length = size.toNat → FirstSsid (wlanEidSsid :: size :: (body ++ rest)) 2 body
  | there {eid size : Byte} {body rest ssid : Bytes} {off : Nat} :
      eid ≠ wlanEidSsid → body.length = size.toNat → FirstSsid rest off ssid →
      FirstSsid (eid :: size :: (body ++ rest)) (size.toNat + 2 + off) ssid

theorem firstSsid_cons_iff {eid size : Byte} {t ssid : Bytes} {off : Nat} :
    FirstSsid (eid :: size :: t) off ssid ↔ size.toNat ≤ t.length ∧
      (eid = wlanEidSsid ∧ off = 2 ∧ ssid = t.take size.toNat ∨
        eid ≠ wlanEidSsid ∧ ∃ off', off = size.toNat + 2 + off' ∧
          FirstSsid (t.drop size.toNat) off' ssid) := by
  constructor
  · intro h
    cases h with
    | @here _ body rest hlen =>
        refine ⟨by simp [← hlen], .inl ⟨rfl, rfl, ?_⟩⟩
        rw [← hlen, List.take_left]
    | @there _ _ body rest _ off' hne hlen hrest =>
        refine ⟨by simp [← hlen], .inr ⟨hne, off', rfl, ?_⟩⟩
        rwa [← hlen, List.drop_left]
  · rintro ⟨hle, ⟨rfl, rfl, rfl⟩ | ⟨hne, off', rfl, hrest⟩⟩
    · have h := @FirstSsid.here size _ (t.drop size.toNat) (List.length_take_of_le hle)
      rwa [List.take_append_drop] at h
    · have h := FirstSsid.there hne (List.length_take_of_le hle) hrest
      rwa [List.take_append_drop] at h

theorem not_firstSsid_of_short {l ssid : Bytes} {off : Nat} (h : l.length < 2) :
    ¬ FirstSsid l off ssid := by
  intro hf
  cases hf <;> simp at h

/-- The body is the part of the chain that begins at the index. -/
theorem FirstSsid.body_eq {l ssid : Bytes} {off : Nat} (h : FirstSsid l off ssid) :
    (l.drop off).take ssid.length = ssid := by
  induction h with
  | here hlen =>
      rw [List.drop_succ_cons, List.drop_succ_cons, List.drop_zero, List.take_left]
  | @there eid size body rest ssid off _ hlen _ ih =>
      have hdrop : (eid :: size :: (body ++ rest)).drop (size.toNat + 2 + off) = rest.drop off := by
        rw [← hlen, show body.length + 2 + off = body.length + off + 2 by omega,
          List.drop_succ_cons, List.drop_succ_cons, ← List.drop_drop, List.drop_left]
      rw [hdrop, ih]

/-! ## What is found -/

/-- What `find_ssid` is to report of the chain that begins at the index `ies`. -/
structure Reports (ies : Nat) (l : Bytes) (r : Option Nat × UInt32) : Prop where
  found : ∀ off ssid, FirstSsid l off ssid → r.1 = some (ies + off) ∧ r.2.toNat = ssid.length
  notFound : (∀ off ssid, ¬ FirstSsid l off ssid) → r = (none, 0)

/-- There is no SSID. -/
theorem Reports.absent {ies : Nat} {l : Bytes} (h : ∀ off ssid, ¬ FirstSsid l off ssid) :
    Reports ies l (none, 0) :=
  ⟨fun off ssid hf => absurd hf (h off ssid), fun _ => rfl⟩

section Element

variable {ies : Nat} {eid size : Byte} {t : Bytes}

/-- The element reaches beyond the end. -/
theorem Reports.beyond (h : t.length < size.toNat) : Reports ies (eid :: size :: t) (none, 0) := by
  refine .absent ?_
  intro off ssid hf
  have := (firstSsid_cons_iff.mp hf).1
  omega

/-- The element is the SSID. -/
theorem Reports.ssid (h : size.toNat ≤ t.length) :
    Reports ies (wlanEidSsid :: size :: t) (some (ies + 2), size.toUInt32) := by
  constructor
  · intro off ssid hf
    obtain ⟨-, ⟨-, rfl, rfl⟩ | ⟨hne, -⟩⟩ := firstSsid_cons_iff.mp hf
    · refine ⟨rfl, ?_⟩
      rw [UInt8.toNat_toUInt32, List.length_take_of_le h]
    · exact absurd rfl hne
  · intro hnone
    exact absurd (firstSsid_cons_iff.mpr ⟨h, .inl ⟨rfl, rfl, rfl⟩⟩) (hnone 2 _)

/-- The element is another one, and the chain behind it is scanned. -/
theorem Reports.next (hother : eid ≠ wlanEidSsid) (h : size.toNat ≤ t.length)
    {r : Option Nat × UInt32} (hr : Reports (ies + (size.toNat + 2)) (t.drop size.toNat) r) :
    Reports ies (eid :: size :: t) r := by
  constructor
  · intro off ssid hf
    obtain ⟨-, ⟨heid, -⟩ | ⟨-, off', rfl, hf'⟩⟩ := firstSsid_cons_iff.mp hf
    · exact absurd heid hother
    · have hfound := hr.found off' ssid hf'
      rwa [Nat.add_assoc] at hfound
  · intro hnone
    refine hr.notFound ?_
    intro off ssid hf
    exact hnone _ ssid (firstSsid_cons_iff.mpr ⟨h, .inr ⟨hother, off, rfl, hf⟩⟩)

end Element

/-- The scan of what remains of the buffer. -/
theorem findSsid_drop {buf : Bytes} {ies : Nat} {iesLen : UInt32}
    (hlen : (buf.drop ies).length = iesLen.toNat) :
    ∃ r, findSsid buf ies iesLen = some r ∧ Reports ies (buf.drop ies) r := by
  rw [findSsid]
  split
  · rename_i hshort
    have hshort' : iesLen.toNat < 2 := UInt32.lt_iff_toNat_lt.mp hshort
    exact ⟨_, rfl, .absent fun off ssid => not_firstSsid_of_short (by omega)⟩
  · rename_i hlong
    have hlong' : 2 ≤ iesLen.toNat := UInt32.le_iff_toNat_le.mp (UInt32.not_lt.mp hlong)
    obtain ⟨eid, l, hl⟩ := List.exists_cons_of_length_pos (l := buf.drop ies) (by omega)
    rw [hl, List.length_cons] at hlen
    obtain ⟨size, t, rfl⟩ := List.exists_cons_of_length_pos (l := l) (by omega)
    rw [List.length_cons] at hlen
    have hread : buf[ies]? = some eid := by
      rw [← Nat.add_zero ies, ← List.getElem?_drop, hl]
      rfl
    have hread₁ : buf[ies + 1]? = some size := by
      rw [← List.getElem?_drop, hl]
      rfl
    rw [hread₁, hread, hl]
    simp only
    split
    · rename_i hlarge
      have hlarge' := UInt32.lt_iff_toNat_lt.mp hlarge
      rw [toNat_curLen] at hlarge'
      have hbeyond : t.length < size.toNat := by omega
      exact ⟨_, rfl, .beyond hbeyond⟩
    · rename_i hfits
      obtain ⟨hle, hremain⟩ := toNat_remaining hfits
      split
      · rename_i hssid
        have hcancel : size.toUInt32 + 2 - 2 = size.toUInt32 := by grind
        rw [hssid, hcancel]
        exact ⟨_, rfl, .ssid (by omega)⟩
      · rename_i hother
        have hrest : buf.drop (ies + (size.toNat + 2)) = t.drop size.toNat := by
          rw [← List.drop_drop, hl, List.drop_succ_cons, List.drop_succ_cons]
        have hnext : (buf.drop (ies + (size.toUInt32 + 2).toNat)).length =
            (iesLen - (size.toUInt32 + 2)).toNat := by
          rw [toNat_curLen, hrest, hremain, List.length_drop]
          omega
        obtain ⟨r, hrun, hr⟩ := findSsid_drop hnext
        rw [toNat_curLen, hrest] at hr
        exact ⟨r, hrun, hr.next hother (by omega)⟩
termination_by iesLen.toNat
decreasing_by
  have := toNat_remaining ‹_›
  omega

/-- `find_ssid` on a buffer of any size stays inside of it.  It reports the body of the first SSID
element if that element and all before it are inside of the buffer, and nothing otherwise. -/
theorem findSsid_reports {buf : Bytes} (h : buf.length < 2 ^ 32) :
    ∃ r, findSsid buf 0 (UInt32.ofNat buf.length) = some r ∧
      (∀ off ssid, FirstSsid buf off ssid →
        r.1 = some off ∧ r.2.toNat = ssid.length ∧ (buf.drop off).take r.2.toNat = ssid) ∧
      ((∀ off ssid, ¬ FirstSsid buf off ssid) → r = (none, 0)) := by
  have hlen : (buf.drop 0).length = (UInt32.ofNat buf.length).toNat := by
    rw [List.drop_zero, UInt32.toNat_ofNat_of_lt' h]
  obtain ⟨r, hrun, hr⟩ := findSsid_drop hlen
  rw [List.drop_zero] at hr
  refine ⟨r, hrun, fun off ssid hf => ?_, hr.notFound⟩
  obtain ⟨hptr, hsize⟩ := hr.found off ssid hf
  rw [Nat.zero_add] at hptr
  exact ⟨hptr, hsize, hsize ▸ hf.body_eq⟩

/-- An SSID behind another element, at the very end of the buffer. -/
theorem findSsid_reports_second :
    findSsid [1, 1, 7, 0, 2, 97, 98] 0 7 = some (some 5, 2) := by
  have hfits : ([1, 1, 7, 0, 2, 97, 98] : Bytes).length < 2 ^ 32 := by decide
  have hssid : FirstSsid [1, 1, 7, 0, 2, 97, 98] 5 [97, 98] :=
    firstSsid_cons_iff.mpr ⟨by decide, .inr ⟨by decide, 2, rfl,
      firstSsid_cons_iff.mpr ⟨by decide, .inl ⟨rfl, rfl, rfl⟩⟩⟩⟩
  obtain ⟨⟨ptr, len⟩, hrun, hfound, -⟩ := findSsid_reports hfits
  obtain ⟨hptr, hlen, -⟩ := hfound 5 _ hssid
  have hptr' : ptr = some 5 := hptr
  have hlen' : len = 2 := UInt32.toNat_inj.mp hlen
  rw [hptr', hlen'] at hrun
  exact hrun

end Luastatus.NetworkLinux
