import PayDayCoin.Library.Runs
import PayDayCoin.Serialize

/-!
# Alerts

An alert is a signed message to all nodes. `ProcessAlert` takes one that is in effect: it first deletes the stored
alerts that the new one cancels, and those that are no longer in effect, and only then asks whether one that is left
cancels the new one. The id `INT_MAX` is reserved for the case that the alert key is compromised: such an alert must
have fixed fields, and is meant never to be overridden.

**`reserved_kept_iff`**: it is kept, and no alert with a smaller id is accepted, exactly as long as no alert cancels the
id `INT_MAX` itself, which `ProcessAlert` never asks about, and time does not reach `nExpiration`, which is `INT_MAX`
seconds.
-/

namespace PayDayCoin

open Library.Codecs Library.Runs

/-- The largest `int`. -/
def maxInt : Int32 := Int32.maxValue

/-- What an alert says. A set is the list of its keys as they are read. -/
structure CUnsignedAlert where
  nVersion : Int32 := 1
  /-- When newer nodes stop relaying to newer nodes. -/
  nRelayUntil : ℤ := 0
  nExpiration : ℤ := 0
  nID : Int32 := 0
  nCancel : Int32 := 0
  setCancel : List Int32 := []
  /-- Lowest version inclusive. -/
  nMinVer : Int32 := 0
  /-- Highest version inclusive. -/
  nMaxVer : Int32 := 0
  /-- Empty matches all. -/
  setSubVer : List (List UInt8) := []
  nPriority : Int32 := 0
  strComment : List UInt8 := []
  strStatusBar : List UInt8 := []
  strReserved : List UInt8 := []
deriving DecidableEq

/-- A string, read at once. -/
def stringCodec : Codec UInt8 (List UInt8) := Codec.run compactSizeCodec MAX_SIZE

/-- The fields of an alert. -/
def CUnsignedAlert.codec : Codec UInt8 CUnsignedAlert :=
  (int32.seq (int64.seq (int64.seq (int32.seq (int32.seq ((vector int32).seq (int32.seq (int32.seq
    ((vector stringCodec).seq (int32.seq (stringCodec.seq (stringCodec.seq stringCodec)))))))))))).imap
    (fun (nVersion, nRelayUntil, nExpiration, nID, nCancel, setCancel, nMinVer, nMaxVer, setSubVer, nPriority,
        strComment, strStatusBar, strReserved) =>
      ⟨nVersion, nRelayUntil, nExpiration, nID, nCancel, setCancel, nMinVer, nMaxVer, setSubVer, nPriority,
        strComment, strStatusBar, strReserved⟩)
    fun a => (a.nVersion, a.nRelayUntil, a.nExpiration, a.nID, a.nCancel, a.setCancel, a.nMinVer, a.nMaxVer,
      a.setSubVer, a.nPriority, a.strComment, a.strStatusBar, a.strReserved)

/-- Times of 64 bits, sets and strings that are not too long. -/
structure CUnsignedAlert.Fits (a : CUnsignedAlert) : Prop where
  nRelayUntil : -9223372036854775808 ≤ a.nRelayUntil ∧ a.nRelayUntil < 9223372036854775808
  nExpiration : -9223372036854775808 ≤ a.nExpiration ∧ a.nExpiration < 9223372036854775808
  setCancel : a.setCancel.length ≤ MAX_SIZE
  setSubVer : a.setSubVer.length ≤ MAX_SIZE ∧ ∀ s ∈ a.setSubVer, s.length ≤ MAX_SIZE
  strComment : a.strComment.length ≤ MAX_SIZE
  strStatusBar : a.strStatusBar.length ≤ MAX_SIZE
  strReserved : a.strReserved.length ≤ MAX_SIZE

theorem CUnsignedAlert.lawful : CUnsignedAlert.codec.Lawful CUnsignedAlert.Fits := by
  have hstring : stringCodec.Lawful fun s => s.length ≤ MAX_SIZE := lawful_compactSize.run MAX_SIZE
  refine (lawful_int32.seq (lawful_int64.seq (lawful_int64.seq (lawful_int32.seq (lawful_int32.seq
    ((lawful_vector lawful_int32).seq (lawful_int32.seq (lawful_int32.seq ((lawful_vector hstring).seq
      (lawful_int32.seq (hstring.seq (hstring.seq hstring)))))))))))).imap (fun a h => ⟨?_, rfl⟩) fun p h => ⟨?_, rfl⟩
  · exact ⟨trivial, h.nRelayUntil, h.nExpiration, trivial, trivial, ⟨h.setCancel, fun _ _ => trivial⟩, trivial, trivial,
      h.setSubVer, trivial, h.strComment, h.strStatusBar, h.strReserved⟩
  · obtain ⟨-, hrelay, hexp, -, -, hcancel, -, -, hsub, -, hcomment, hstatus, hreserved⟩ := h
    exact ⟨hrelay, hexp, hcancel.1, hsub, hcomment, hstatus, hreserved⟩

/-- An alert: a serialized `CUnsignedAlert` and a signature, and what is read of it. -/
structure CAlert extends CUnsignedAlert where
  vchMsg : List UInt8
  vchSig : List UInt8
deriving DecidableEq

/-- The hash of messages and the alert key. -/
class AlertKey where
  hash : List UInt8 → Uint256
  /-- `CPubKey::Verify` of the alert key. -/
  verify : Uint256 → List UInt8 → Bool

/-- `mapAlerts`. -/
abbrev Alerts := List (Uint256 × CAlert)

/-- The text that the reserved id must have. -/
def compromisedText : List UInt8 := "URGENT: Alert key compromised, upgrade required".toUTF8.toList

namespace CAlert

/-- `CAlert::IsInEffect`, at an adjusted time. -/
def isInEffect (alert : CAlert) (now : ℤ) : Bool := now < alert.nExpiration

/-- `CAlert::Cancels`. -/
def cancels (self : CAlert) (now : ℤ) (alert : CAlert) : Bool :=
  self.isInEffect now && (alert.nID ≤ self.nCancel || self.setCancel.contains alert.nID)

/-- What an alert with the reserved id must be. -/
def reservedFields (alert : CAlert) : Bool :=
  alert.nExpiration == maxInt.toInt && alert.nCancel == maxInt - 1 && alert.nMinVer == 0 && alert.nMaxVer == maxInt &&
    alert.setSubVer.isEmpty && alert.nPriority == maxInt && alert.strStatusBar == compromisedText

variable [AlertKey]

/-- `CAlert::CheckSignature`: verifies the signature and reads the message. -/
def checkSignature (vchMsg vchSig : List UInt8) : Except Reject CAlert :=
  if !AlertKey.verify (AlertKey.hash vchMsg) vchSig then
    .error (.error "CAlert::CheckSignature() : verify signature failed")
  else
    match CUnsignedAlert.codec.read vchMsg with
    | none => .error (.throws "ios_base::failure")
    | some (alert, _) => .ok { alert with vchMsg, vchSig }

/-- The checks of `CAlert::ProcessAlert` on the alert alone. -/
def checkAlert (vchMsg vchSig : List UInt8) (now : ℤ) : Except Reject CAlert :=
  (checkSignature vchMsg vchSig).bind fun alert =>
    if !alert.isInEffect now then .error .fail
    else if alert.nID == maxInt && !alert.reservedFields then .error .fail
    else .ok alert

/-- The stored alerts that are left when the new one has cancelled and others have expired. -/
def cancelPrevious (alert : CAlert) (now : ℤ) (mapAlerts : Alerts) : Alerts :=
  mapAlerts.filter fun item => !(alert.cancels now item.2 || !item.2.isInEffect now)

/-- An alert is stored, when there is none under its hash. -/
def store (alert : CAlert) (mapAlerts : Alerts) : Alerts :=
  if mapAlerts.any fun item => item.1 == AlertKey.hash alert.vchMsg then mapAlerts
  else mapAlerts ++ [(AlertKey.hash alert.vchMsg, alert)]

/-- `CAlert::ProcessAlert`. -/
def processAlert (vchMsg vchSig : List UInt8) (now : ℤ) (mapAlerts : Alerts) : Except Reject Unit × Alerts :=
  match checkAlert vchMsg vchSig now with
  | .error e => (.error e, mapAlerts)
  | .ok alert =>
    let mapAlerts := alert.cancelPrevious now mapAlerts
    if mapAlerts.any fun item => item.2.cancels now alert then (.error .fail, mapAlerts)
    else (.ok (), alert.store mapAlerts)

/-! ### What a call does -/

theorem checkSignature_eq_ok {vchMsg vchSig : List UInt8} {alert : CAlert}
    (h : checkSignature vchMsg vchSig = .ok alert) : alert.vchMsg = vchMsg ∧ alert.vchSig = vchSig ∧
      ∃ rest, CUnsignedAlert.codec.read vchMsg = some (alert.toCUnsignedAlert, rest) := by
  rw [checkSignature] at h
  split at h
  · cases h
  · split at h
    · cases h
    · next a rest hread =>
      obtain rfl := Except.ok.inj h
      exact ⟨rfl, rfl, rest, hread⟩

/-- What an alert says is read off its message. -/
theorem toCUnsignedAlert_eq {vchMsg sig sig' : List UInt8} {a b : CAlert} (ha : checkSignature vchMsg sig = .ok a)
    (hb : checkSignature vchMsg sig' = .ok b) : a.toCUnsignedAlert = b.toCUnsignedAlert := by
  obtain ⟨-, -, rest, hread⟩ := checkSignature_eq_ok ha
  obtain ⟨-, -, rest', hread'⟩ := checkSignature_eq_ok hb
  rw [hread] at hread'
  exact (Prod.mk.inj (Option.some.inj hread')).1

theorem checkAlert_eq_ok {vchMsg vchSig : List UInt8} {now : ℤ} {alert : CAlert} :
    checkAlert vchMsg vchSig now = .ok alert ↔ checkSignature vchMsg vchSig = .ok alert ∧
      alert.isInEffect now = true ∧ (alert.nID = maxInt → alert.reservedFields = true) := by
  rw [checkAlert]
  cases hsig : checkSignature vchMsg vchSig with
  | error e => simp [Except.bind]
  | ok a =>
    simp only [Except.bind, Except.ok.injEq]
    split
    · next h =>
      simp only [reduceCtorEq, false_iff, not_and]
      rintro rfl hin
      simp [hin] at h
    · next h =>
      split
      · next h' =>
        simp only [reduceCtorEq, false_iff, not_and]
        rintro rfl hin hres
        simp only [Bool.and_eq_true, beq_iff_eq, Bool.not_eq_true'] at h'
        simp [hres h'.1] at h'
      · next h' =>
        simp only [Except.ok.injEq]
        refine ⟨?_, fun h => h.1⟩
        rintro rfl
        refine ⟨rfl, by simpa using h, fun hID => ?_⟩
        simpa [hID] using h'

omit [AlertKey] in
theorem mem_cancelPrevious {alert : CAlert} {now : ℤ} {mapAlerts : Alerts} {item : Uint256 × CAlert} :
    item ∈ alert.cancelPrevious now mapAlerts ↔
      item ∈ mapAlerts ∧ alert.cancels now item.2 = false ∧ item.2.isInEffect now = true := by
  simp [cancelPrevious]

omit [AlertKey] in
theorem cancels_iff {self alert : CAlert} {now : ℤ} : self.cancels now alert = true ↔
    self.isInEffect now = true ∧ (alert.nID ≤ self.nCancel ∨ alert.nID ∈ self.setCancel) := by
  simp [cancels]

theorem mem_store {alert : CAlert} {mapAlerts : Alerts} {item : Uint256 × CAlert} (h : item ∈ alert.store mapAlerts) :
    item ∈ mapAlerts ∨ item = (AlertKey.hash alert.vchMsg, alert) := by
  rw [store] at h
  split at h
  · exact .inl h
  · simpa using h

theorem subset_store {alert : CAlert} {mapAlerts : Alerts} {item : Uint256 × CAlert} (h : item ∈ mapAlerts) :
    item ∈ alert.store mapAlerts := by
  rw [store]
  split
  · exact h
  · exact List.mem_append_left _ h

/-- Once a call is over, there is an alert under the hash of one that was stored. -/
theorem exists_mem_store (alert : CAlert) (mapAlerts : Alerts) :
    ∃ item ∈ alert.store mapAlerts, item.1 = AlertKey.hash alert.vchMsg ∧ (item ∈ mapAlerts ∨ item.2 = alert) := by
  rw [store]
  split
  · next h =>
    obtain ⟨item, hmem, heq⟩ := List.any_eq_true.1 h
    exact ⟨item, hmem, by simpa using heq, .inl hmem⟩
  · exact ⟨_, List.mem_append_right _ (List.mem_singleton.2 rfl), rfl, .inr rfl⟩

/-- What a call does: nothing, or it takes the alerts away that are cancelled or expired, and then stores the new one
unless one of the rest cancels it. -/
theorem processAlert_cases (vchMsg vchSig : List UInt8) (now : ℤ) (mapAlerts : Alerts) :
    (∃ e, checkAlert vchMsg vchSig now = .error e ∧ processAlert vchMsg vchSig now mapAlerts = (.error e, mapAlerts)) ∨
    ∃ alert, checkAlert vchMsg vchSig now = .ok alert ∧
      ((∃ item ∈ alert.cancelPrevious now mapAlerts, item.2.cancels now alert = true) ∧
          processAlert vchMsg vchSig now mapAlerts = (.error .fail, alert.cancelPrevious now mapAlerts) ∨
        (∀ item ∈ alert.cancelPrevious now mapAlerts, item.2.cancels now alert = false) ∧
          processAlert vchMsg vchSig now mapAlerts = (.ok (), alert.store (alert.cancelPrevious now mapAlerts))) := by
  rw [processAlert]
  cases hcheck : checkAlert vchMsg vchSig now with
  | error e => exact .inl ⟨e, rfl, rfl⟩
  | ok alert =>
    refine .inr ⟨alert, rfl, ?_⟩
    simp only
    split
    · next h => exact .inl ⟨by simpa using h, rfl⟩
    · next h => exact .inr ⟨by simpa using h, rfl⟩

end CAlert

/-! ### The reserved id -/

theorem toInt_maxInt : maxInt.toInt = 2147483647 := by decide

theorem eq_maxInt_of_not_le {n : Int32} (h : ¬n ≤ maxInt - 1) : n = maxInt := by
  rw [Int32.le_iff_toInt_le] at h
  have hlt := n.toInt_lt
  have hsub : (maxInt - 1).toInt = 2147483646 := by decide
  refine Int32.toInt_inj.1 ?_
  rw [toInt_maxInt]
  omega

theorem le_pred_maxInt {n : Int32} (h : n ≠ maxInt) : n ≤ maxInt - 1 := by
  by_contra hle
  exact h (eq_maxInt_of_not_le hle)

theorem not_maxInt_le_pred : ¬maxInt ≤ maxInt - 1 := by decide

/-- The fields that `reservedFields` asks for and what follows uses. -/
theorem CAlert.reservedFields_iff {alert : CAlert} (h : alert.reservedFields = true) :
    alert.nExpiration = 2147483647 ∧ alert.nCancel = maxInt - 1 := by
  simp only [CAlert.reservedFields, Bool.and_eq_true, beq_iff_eq, toInt_maxInt] at h
  exact ⟨h.1.1.1.1.1.1, h.1.1.1.1.1.2⟩

/-- A call of `ProcessAlert` at an adjusted time. -/
structure AlertCall where
  vchMsg : List UInt8
  vchSig : List UInt8
  now : ℤ

section Reserved

variable [AlertKey]

/-- What a call returns, and the alerts after it. -/
def AlertCall.process (e : AlertCall) (mapAlerts : Alerts) : Except Reject Unit × Alerts :=
  CAlert.processAlert e.vchMsg e.vchSig e.now mapAlerts

/-- The alerts after a call. -/
def alertStep (mapAlerts : Alerts) (e : AlertCall) : Alerts := (e.process mapAlerts).2

/-- Each alert is stored under its hash, is validly signed, and says what its message says. -/
def Signed (mapAlerts : Alerts) : Prop :=
  ∀ item ∈ mapAlerts, item.1 = AlertKey.hash item.2.vchMsg ∧
    CAlert.checkSignature item.2.vchMsg item.2.vchSig = .ok item.2

/-- The alert with a message is stored, and none with an id below the reserved one. -/
def Kept (vchMsg : List UInt8) (mapAlerts : Alerts) : Prop :=
  (∃ item ∈ mapAlerts, item.1 = AlertKey.hash vchMsg ∧ item.2.vchMsg = vchMsg) ∧
    ∀ item ∈ mapAlerts, item.2.nID = maxInt

/-- A call whose alert passes the checks comes before `INT_MAX` seconds, and its alert is that with the message or does
not cancel the id `INT_MAX`. -/
def Harmless (vchMsg : List UInt8) (e : AlertCall) : Prop :=
  ∀ alert, CAlert.checkAlert e.vchMsg e.vchSig e.now = .ok alert →
    e.now < 2147483647 ∧ (e.vchMsg = vchMsg ∨ ¬(maxInt ≤ alert.nCancel ∨ maxInt ∈ alert.setCancel))

theorem Signed.step {mapAlerts : Alerts} (h : Signed mapAlerts) (e : AlertCall) : Signed (alertStep mapAlerts e) := by
  rw [alertStep, AlertCall.process]
  rcases CAlert.processAlert_cases e.vchMsg e.vchSig e.now mapAlerts with
    ⟨err, -, heq⟩ | ⟨alert, hcheck, ⟨-, heq⟩ | ⟨-, heq⟩⟩
  · rwa [heq]
  · rw [heq]
    exact fun item hitem => h item (CAlert.mem_cancelPrevious.1 hitem).1
  · rw [heq]
    intro item hitem
    rcases CAlert.mem_store hitem with hold | rfl
    · exact h item (CAlert.mem_cancelPrevious.1 hold).1
    · have hsig := (CAlert.checkAlert_eq_ok.1 hcheck).1
      obtain ⟨hmsg, hvch, -⟩ := CAlert.checkSignature_eq_ok hsig
      exact ⟨rfl, by rw [hmsg, hvch]; exact hsig⟩

/-- A message that says what the reserved id requires. -/
def ReservedMessage (vchMsg : List UInt8) : Prop :=
  ∃ a rest, CUnsignedAlert.codec.read vchMsg = some (a, rest) ∧ a.nID = maxInt ∧ a.nExpiration = 2147483647 ∧
    a.nCancel = maxInt - 1

theorem ReservedMessage.fields {vchMsg vchSig : List UInt8} (h : ReservedMessage vchMsg) {alert : CAlert}
    (hsig : CAlert.checkSignature vchMsg vchSig = .ok alert) :
    alert.nID = maxInt ∧ alert.nExpiration = 2147483647 ∧ alert.nCancel = maxInt - 1 := by
  obtain ⟨a, rest, hread, hfields⟩ := h
  obtain ⟨-, -, rest', hread'⟩ := CAlert.checkSignature_eq_ok hsig
  rw [hread] at hread'
  rwa [(Prod.mk.inj (Option.some.inj hread')).1] at hfields

theorem ReservedMessage.of_checkAlert {vchMsg vchSig : List UInt8} {now : ℤ} {alert : CAlert}
    (hcheck : CAlert.checkAlert vchMsg vchSig now = .ok alert) (hID : alert.nID = maxInt) : ReservedMessage vchMsg := by
  obtain ⟨hsig, -, hres⟩ := CAlert.checkAlert_eq_ok.1 hcheck
  obtain ⟨-, -, rest, hread⟩ := CAlert.checkSignature_eq_ok hsig
  exact ⟨_, rest, hread, hID, CAlert.reservedFields_iff (hres hID)⟩

/-- While the reserved alert is in effect and stored, an alert with a smaller id is cancelled. -/
theorem ReservedMessage.cancels {vchMsg : List UInt8} (h : ReservedMessage vchMsg) {mapAlerts : Alerts}
    (hsigned : Signed mapAlerts) {item : Uint256 × CAlert} (hitem : item ∈ mapAlerts) (hmsg : item.2.vchMsg = vchMsg)
    {now : ℤ} (hnow : now < 2147483647) {alert : CAlert} (hID : alert.nID ≠ maxInt) :
    item.2.cancels now alert = true := by
  obtain ⟨-, hexp, hcancel⟩ := h.fields (hmsg ▸ (hsigned item hitem).2)
  refine CAlert.cancels_iff.2 ⟨?_, .inl ?_⟩
  · simpa [CAlert.isInEffect, hexp] using hnow
  · rw [hcancel]
    exact le_pred_maxInt hID

/-- After a harmless call the reserved alert is still kept, and no alert with a smaller id was accepted. -/
theorem Kept.step {vchMsg : List UInt8} (h : ReservedMessage vchMsg) {mapAlerts : Alerts} (hsigned : Signed mapAlerts)
    (hkept : Kept vchMsg mapAlerts) {e : AlertCall} (he : Harmless vchMsg e) :
    Kept vchMsg (alertStep mapAlerts e) ∧ ∀ alert, CAlert.checkSignature e.vchMsg e.vchSig = .ok alert →
      alert.nID < maxInt → (e.process mapAlerts).1 ≠ .ok () := by
  obtain ⟨⟨item, hitem, hkey, hmsg⟩, hall⟩ := hkept
  have hleft : ∀ {alert : CAlert} {i}, i ∈ alert.cancelPrevious e.now mapAlerts → i.2.nID = maxInt :=
    fun hi => hall _ (CAlert.mem_cancelPrevious.1 hi).1
  rw [alertStep, AlertCall.process]
  rcases CAlert.processAlert_cases e.vchMsg e.vchSig e.now mapAlerts with
    ⟨err, -, heq⟩ | ⟨alert, hcheck, hcase⟩
  · rw [heq]
    exact ⟨⟨⟨item, hitem, hkey, hmsg⟩, hall⟩, fun _ _ _ => by simp⟩
  obtain ⟨hsig, hin, hres⟩ := CAlert.checkAlert_eq_ok.1 hcheck
  obtain ⟨hnow, hharm⟩ := he alert hcheck
  by_cases hmax : maxInt ≤ alert.nCancel ∨ maxInt ∈ alert.setCancel
  · -- the reserved alert comes again, cancels itself, and is stored again
    obtain rfl := hharm.resolve_right (not_not_intro hmax)
    obtain ⟨hID, -, -⟩ := h.fields hsig
    have hempty : alert.cancelPrevious e.now mapAlerts = [] := by
      refine List.eq_nil_iff_forall_not_mem.2 fun i hi => ?_
      obtain ⟨hmem, hnot, -⟩ := CAlert.mem_cancelPrevious.1 hi
      rw [CAlert.cancels_iff.2 ⟨hin, by rwa [hall i hmem]⟩] at hnot
      cases hnot
    rw [hempty] at hcase
    obtain ⟨⟨i, hi, -⟩, -⟩ | ⟨-, heq⟩ := hcase
    · cases hi
    · obtain ⟨hvch, -, -⟩ := CAlert.checkSignature_eq_ok hsig
      rw [heq]
      refine ⟨⟨⟨(_, alert), List.mem_singleton.2 rfl, by rw [hvch], hvch⟩, fun i hi => ?_⟩, fun a ha hlt => ?_⟩
      · obtain rfl := List.mem_singleton.1 hi
        exact hID
      · obtain rfl := Except.ok.inj (hsig.symm.trans ha)
        rw [hID] at hlt
        exact absurd hlt (by decide)
  · have hstays : item ∈ alert.cancelPrevious e.now mapAlerts := by
      obtain ⟨hID, hexp, -⟩ := h.fields (hmsg ▸ (hsigned item hitem).2)
      refine CAlert.mem_cancelPrevious.2 ⟨hitem, ?_, by simpa [CAlert.isInEffect, hexp] using hnow⟩
      rw [Bool.eq_false_iff]
      intro hcancels
      obtain ⟨-, hcancels⟩ := CAlert.cancels_iff.1 hcancels
      rw [hID] at hcancels
      exact hmax hcancels
    rcases hcase with ⟨-, heq⟩ | ⟨hnone, heq⟩
    · rw [heq]
      exact ⟨⟨⟨item, hstays, hkey, hmsg⟩, fun i hi => hleft hi⟩, fun _ _ _ => by simp⟩
    · have hID : alert.nID = maxInt := by
        by_contra hID
        have hcancels := h.cancels hsigned hitem hmsg hnow hID
        rw [hnone item hstays] at hcancels
        cases hcancels
      rw [heq]
      refine ⟨⟨⟨item, CAlert.subset_store hstays, hkey, hmsg⟩, fun i hi => ?_⟩, fun a ha hlt => ?_⟩
      · rcases CAlert.mem_store hi with hold | rfl
        · exact hleft hold
        · exact hID
      · obtain rfl := Except.ok.inj (hsig.symm.trans ha)
        rw [hID] at hlt
        exact absurd hlt (by decide)

/-- Any other call takes the reserved alert away. -/
theorem Kept.broken {vchMsg : List UInt8} (h : ReservedMessage vchMsg) {mapAlerts : Alerts} (hsigned : Signed mapAlerts)
    {e : AlertCall} (he : ¬Harmless vchMsg e) : ¬Kept vchMsg (alertStep mapAlerts e) := by
  simp only [Harmless, not_forall, not_and_or, not_or, not_not] at he
  obtain ⟨alert, hcheck, hharm⟩ := he
  obtain ⟨hsig, hin, -⟩ := CAlert.checkAlert_eq_ok.1 hcheck
  obtain ⟨hvch, -, -⟩ := CAlert.checkSignature_eq_ok hsig
  have hgone : ∀ i ∈ alert.cancelPrevious e.now mapAlerts, i.2.vchMsg ≠ vchMsg := by
    intro i hi hmsg
    obtain ⟨hmem, hnot, heffect⟩ := CAlert.mem_cancelPrevious.1 hi
    obtain ⟨hID, hexp, -⟩ := h.fields (hmsg ▸ (hsigned i hmem).2)
    rcases hharm with hlate | ⟨-, hmax⟩
    · simp only [CAlert.isInEffect, hexp, decide_eq_true_eq] at heffect
      exact hlate heffect
    · rw [CAlert.cancels_iff.2 ⟨hin, by rwa [hID]⟩] at hnot
      cases hnot
  have hother : alert.vchMsg ≠ vchMsg := by
    rw [hvch]
    rintro rfl
    rcases hharm with hlate | ⟨hne, -⟩
    · simp only [CAlert.isInEffect, (h.fields hsig).2.1, decide_eq_true_eq] at hin
      exact hlate hin
    · exact hne rfl
  rintro ⟨⟨item, hitem, -, hmsg⟩, -⟩
  rw [alertStep, AlertCall.process] at hitem
  rcases CAlert.processAlert_cases e.vchMsg e.vchSig e.now mapAlerts with
    ⟨err, herr, -⟩ | ⟨alert', hcheck', hcase⟩
  · rw [hcheck] at herr
    cases herr
  obtain rfl := Except.ok.inj (hcheck.symm.trans hcheck')
  rcases hcase with ⟨-, heq⟩ | ⟨-, heq⟩
  · rw [heq] at hitem
    exact hgone item hitem hmsg
  · rw [heq] at hitem
    rcases CAlert.mem_store hitem with hold | rfl
    · exact hgone item hold hmsg
    · exact hother hmsg

/-- An alert with the reserved id that is accepted is kept, unless another message has its hash. -/
theorem Kept.of_accepted {mapAlerts : Alerts} {m : AlertCall} {alert : CAlert}
    (hsig : CAlert.checkSignature m.vchMsg m.vchSig = .ok alert) (hID : alert.nID = maxInt)
    (haccepted : (m.process mapAlerts).1 = .ok ())
    (hcollision : ∀ item ∈ mapAlerts, item.1 = AlertKey.hash m.vchMsg → item.2.vchMsg = m.vchMsg) :
    ReservedMessage m.vchMsg ∧ Kept m.vchMsg (alertStep mapAlerts m) := by
  obtain ⟨hvch, -, -⟩ := CAlert.checkSignature_eq_ok hsig
  rw [AlertCall.process] at haccepted
  rw [alertStep, AlertCall.process]
  rcases CAlert.processAlert_cases m.vchMsg m.vchSig m.now mapAlerts with
    ⟨err, -, heq⟩ | ⟨alert', hcheck, ⟨-, heq⟩ | ⟨-, heq⟩⟩
  · rw [heq] at haccepted
    cases haccepted
  · rw [heq] at haccepted
    cases haccepted
  obtain ⟨hsig', hin, -⟩ := CAlert.checkAlert_eq_ok.1 hcheck
  obtain rfl := Except.ok.inj (hsig.symm.trans hsig')
  have hres := ReservedMessage.of_checkAlert hcheck hID
  refine ⟨hres, ?_⟩
  rw [heq]
  constructor
  · obtain ⟨item, hitem, hkey, hor⟩ := CAlert.exists_mem_store alert (alert.cancelPrevious m.now mapAlerts)
    rw [hvch] at hkey
    refine ⟨item, hitem, hkey, ?_⟩
    rcases hor with hold | rfl
    · exact hcollision item (CAlert.mem_cancelPrevious.1 hold).1 hkey
    · exact hvch
  · intro item hitem
    rcases CAlert.mem_store hitem with hold | rfl
    · obtain ⟨-, hnot, -⟩ := CAlert.mem_cancelPrevious.1 hold
      refine eq_maxInt_of_not_le fun hle => ?_
      rw [CAlert.cancels_iff.2 ⟨hin, .inl ?_⟩] at hnot
      · cases hnot
      · rwa [(hres.fields hsig).2.2]
    · exact hID

/-- Once an alert with the reserved id is accepted, it stays in `mapAlerts` with no alert of a smaller id beside it,
and none is accepted, exactly if every later call is harmless. The hash of its message is that of no other stored one. -/
theorem reserved_kept_iff (earlier calls : List AlertCall) {m : AlertCall} {alert : CAlert}
    (hsig : CAlert.checkSignature m.vchMsg m.vchSig = .ok alert) (hID : alert.nID = maxInt)
    (haccepted : (m.process (run alertStep [] earlier)).1 = .ok ())
    (hcollision : ∀ item ∈ run alertStep [] earlier, item.1 = AlertKey.hash m.vchMsg → item.2.vchMsg = m.vchMsg) :
    ((∀ n, Kept m.vchMsg (run alertStep (alertStep (run alertStep [] earlier) m) (calls.take n))) ∧
      ∀ (n : ℕ) (e : AlertCall), calls[n]? = some e → ∀ a, CAlert.checkSignature e.vchMsg e.vchSig = .ok a → a.nID < maxInt →
        (e.process (run alertStep (alertStep (run alertStep [] earlier) m) (calls.take n))).1 ≠ .ok ()) ↔
    ∀ e ∈ calls, Harmless m.vchMsg e := by
  have hstart : Signed (run alertStep [] earlier) :=
    run_induct (I := Signed) (fun e _ s hs => hs.step e) fun item hitem => absurd hitem List.not_mem_nil
  obtain ⟨hres, hkept⟩ := Kept.of_accepted hsig hID haccepted hcollision
  have hiff : (∀ n, Kept m.vchMsg (run alertStep (alertStep (run alertStep [] earlier) m) (calls.take n))) ↔
      Along alertStep (fun _ e => Harmless m.vchMsg e) (alertStep (run alertStep [] earlier) m) calls :=
    forall_take_iff_along (I := fun s => Signed s ∧ Kept m.vchMsg s) (fun _ hs => hs.2)
      (fun _ e he hs => ⟨hs.1.step e, (Kept.step hres hs.1 hs.2 he).1⟩)
      (fun _ _ he hs => Kept.broken hres hs.1 he) ⟨hstart.step m, hkept⟩
  have halong : Along alertStep (fun _ e => Harmless m.vchMsg e) (alertStep (run alertStep [] earlier) m) calls ↔
      ∀ e ∈ calls, Harmless m.vchMsg e := by
    rw [along_iff_forall]
    exact ⟨fun h e he => (List.mem_iff_getElem?.1 he).elim fun n hn => h n e hn,
      fun h n e hn => h e (List.mem_of_getElem? hn)⟩
  rw [← halong, ← hiff]
  refine ⟨fun h => h.1, fun h => ⟨h, fun n e hn a ha hlt => ?_⟩⟩
  have hsigned : Signed (run alertStep (alertStep (run alertStep [] earlier) m) (calls.take n)) :=
    run_induct (I := Signed) (fun e _ s hs => hs.step e) (hstart.step m)
  exact (Kept.step hres hsigned (h n) (halong.1 (hiff.1 h) e (List.mem_of_getElem? hn))).2 a ha hlt

end Reserved

/-! ### An alert that overrides -/

namespace AlertSample

/-- A key for which every signature is valid, and a hash that keeps the low bytes. -/
scoped instance alertKey : AlertKey where
  hash vchMsg := BitVec.ofNat 256 (ofBytes vchMsg)
  verify _ _ := true

/-- The alert with the reserved id. -/
def reserved : CUnsignedAlert where
  nExpiration := 2147483647
  nID := maxInt
  nCancel := maxInt - 1
  nMaxVer := maxInt
  nPriority := maxInt
  strStatusBar := compromisedText

/-- An alert with the id 1 that cancels all ids. -/
def overriding : CUnsignedAlert where
  nExpiration := 1
  nID := 1
  nCancel := maxInt

/-- The call that brings an alert, at time 0. -/
def callOf (a : CUnsignedAlert) : AlertCall := ⟨CUnsignedAlert.codec.write a, [], 0⟩

theorem length_compromisedText : compromisedText.length = 47 := by decide +kernel

theorem reserved_fits : reserved.Fits := by
  constructor <;> simp [reserved, length_compromisedText, MAX_SIZE]

theorem overriding_fits : overriding.Fits := by
  constructor <;> simp [overriding, MAX_SIZE]

/-- The alert that a call brings. -/
theorem checkSignature_callOf {a : CUnsignedAlert} (h : a.Fits) :
    CAlert.checkSignature (callOf a).vchMsg (callOf a).vchSig =
      .ok { a with vchMsg := CUnsignedAlert.codec.write a, vchSig := [] } := by
  have hread := CUnsignedAlert.lawful.read_write h []
  rw [List.append_nil] at hread
  simp only [callOf, CAlert.checkSignature, hread]
  rfl

/-- An alert that cancels all the others is accepted. -/
theorem accepted_of_cancels {a : CUnsignedAlert} {mapAlerts : Alerts}
    (hcheck : CAlert.checkAlert (callOf a).vchMsg (callOf a).vchSig 0 =
      .ok { a with vchMsg := CUnsignedAlert.codec.write a, vchSig := [] })
    (hempty : ∀ item ∈ mapAlerts, item.2.nID ≤ a.nCancel) : ((callOf a).process mapAlerts).1 = .ok () := by
  rw [AlertCall.process]
  rcases CAlert.processAlert_cases (callOf a).vchMsg (callOf a).vchSig 0 mapAlerts with
    ⟨err, herr, -⟩ | ⟨alert, hcheck', ⟨⟨item, hitem, -⟩, -⟩ | ⟨-, heq⟩⟩
  · rw [hcheck] at herr
    cases herr
  · obtain rfl := Except.ok.inj (hcheck.symm.trans hcheck')
    obtain ⟨hmem, hnot, -⟩ := CAlert.mem_cancelPrevious.1 hitem
    rw [CAlert.cancels_iff.2 ⟨(CAlert.checkAlert_eq_ok.1 hcheck).2.1, .inl (hempty item hmem)⟩] at hnot
    cases hnot
  · exact congrArg Prod.fst heq

theorem checkAlert_reserved : CAlert.checkAlert (callOf reserved).vchMsg (callOf reserved).vchSig 0 =
    .ok { reserved with vchMsg := CUnsignedAlert.codec.write reserved, vchSig := [] } := by
  refine CAlert.checkAlert_eq_ok.2 ⟨checkSignature_callOf reserved_fits, by decide, fun _ => ?_⟩
  simp [CAlert.reservedFields, reserved, toInt_maxInt]

theorem checkAlert_overriding : CAlert.checkAlert (callOf overriding).vchMsg (callOf overriding).vchSig 0 =
    .ok { overriding with vchMsg := CUnsignedAlert.codec.write overriding, vchSig := [] } :=
  CAlert.checkAlert_eq_ok.2 ⟨checkSignature_callOf overriding_fits, by decide, fun h => absurd h (by decide)⟩

theorem reserved_accepted : ((callOf reserved).process []).1 = .ok () :=
  accepted_of_cancels checkAlert_reserved fun _ h => absurd h List.not_mem_nil

/-- The reserved alert is kept when it comes again. -/
theorem reserved_kept_again :
    Kept (callOf reserved).vchMsg (run alertStep (alertStep [] (callOf reserved)) [callOf reserved]) :=
  ((reserved_kept_iff [] [callOf reserved] (checkSignature_callOf reserved_fits) rfl
    reserved_accepted fun _ h => absurd h List.not_mem_nil).2 fun e he => by
      obtain rfl := List.mem_singleton.1 he
      exact fun _ _ => ⟨by decide, .inl rfl⟩).1 1

/-- The reserved alert is accepted, then one with the id 1, and the reserved one is gone. -/
theorem reserved_overridden : reserved.nID = maxInt ∧ ((callOf reserved).process []).1 = .ok () ∧
    overriding.nID < maxInt ∧ ((callOf overriding).process (alertStep [] (callOf reserved))).1 = .ok () ∧
    ¬Kept (callOf reserved).vchMsg (alertStep (alertStep [] (callOf reserved)) (callOf overriding)) := by
  have hsigned : Signed (alertStep [] (callOf reserved)) := Signed.step (fun _ h => absurd h List.not_mem_nil) _
  obtain ⟨hres, hkept⟩ := Kept.of_accepted (checkSignature_callOf reserved_fits) rfl reserved_accepted
    fun _ h => absurd h List.not_mem_nil
  refine ⟨rfl, reserved_accepted, by decide, ?_, ?_⟩
  · refine accepted_of_cancels checkAlert_overriding fun item hitem => ?_
    rw [hkept.2 item hitem]
    decide
  · refine Kept.broken hres hsigned fun hharm => ?_
    obtain ⟨-, hsame | hnot⟩ := hharm _ checkAlert_overriding
    · have hread := CUnsignedAlert.lawful.read_write overriding_fits []
      have hread' := CUnsignedAlert.lawful.read_write reserved_fits []
      have heq : CUnsignedAlert.codec.write overriding = CUnsignedAlert.codec.write reserved := hsame
      rw [heq, hread'] at hread
      exact absurd (congrArg CUnsignedAlert.nID (Prod.mk.inj (Option.some.inj hread)).1) (by decide)
    · exact hnot (.inl (by decide))

end AlertSample

end PayDayCoin
