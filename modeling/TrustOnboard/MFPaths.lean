import TrustOnboard.AppletFollowUps
import TrustOnboard.SdkTrace

/-! The path of an elementary file on the wire. `MF::readEF` takes the path in raw bytes, and the SDK decodes its hex
text before the call; the two wrappers of the class pass the hex text itself. -/

namespace TrustOnboard

open Exec Linked SEInterface

variable {σ : Type} {T : Transport σ}

namespace MF

/-- The SELECT of `readEF`. -/
def selectRequest (path : List UInt8) : Request :=
  ⟨0x00, SCIns.select.code, SCP1.SELECTByPathFromMF, SCP2.SELECTFCPTemplate ||| SCP2.SELECTFirstOrOnly, .case4 path 0x00⟩

/-- The same on the channel of an applet. -/
def selectPathApdu (channel : UInt8) (path : List UInt8) : List UInt8 :=
  Request.apdu { selectRequest path with cla := 0x00 ||| channel }

/-- The first thing that a program puts on the wire is a SELECT of this path. -/
def SelectsPath {α : Type} (program : Exec (Linked σ Applet) α) (s : Linked σ Applet) (path : List UInt8) : Prop :=
  ∃ fuel later apdu answer, (program fuel s).2.se.log = later ++ .exchange apdu answer :: s.se.log ∧
    insOf apdu = SCIns.select.code ∧ (apdu.drop 5).dropLast = path

/-- `readEF` up to the answer to the SELECT. -/
def selectEF (T : Transport σ) (path : List UInt8) : Exec (Linked σ Applet) Bool :=
  Applet.ok (Applet.transmitRequest T (selectRequest path))

theorem selectEF_log {path : List UInt8} {s : Linked σ Applet} (hselected : s.obj.isSelected = true)
    (hattached : s.obj.attached = true) (hpath : path.length ≤ 255) (fuel : Nat) :
    (selectEF T path fuel s).2.se.log = (SEInterface.command T (selectPathApdu s.obj.channel path) fuel
      { s.se with apdu := selectPathApdu s.obj.channel path }).2.log := by
  have hdata : (selectRequest path).data.length ≤ 255 := hpath
  rw [selectEF, Applet.ok_state]
  exact Applet.transmitRequest_log hselected hattached hdata fuel

/-- The log goes on with an exchange of this command. -/
def Begins (command : List UInt8) (s s' : Linked σ Applet) : Prop :=
  ∃ later first, s'.se.log = later ++ .exchange command first :: s.se.log

/-- `readEF` after the SELECT only adds to the log. -/
theorem readEF_after (data : Option Mem) (dataLen : Nat) (ok : Bool) :
    Stays (Within T id (fun _ => True) fun _ => True) (if ok = true then do
        let length ← onSE (gets getResponseLength)
        match ← onSE (getEFSize length) with
        | none => return (false, data, dataLen)
        | some size =>
            match data with
            | none => return (true, none, size)
            | some out =>
                let read ← loop (readTurn T size) (0, out)
                return (read.1, some read.2, size)
      else return (false, data, dataLen)) := by
  refine .ite ?_ (.pure _)
  exact .bind (onSE_within fun _ => .gets _) fun length =>
    .bind (onSE_within fun _ => getEFSize_grows _) fun size => readSize_within trivial data dataLen size

/-- Nothing is on the wire before the SELECT. -/
theorem readEF_begins {s : Linked σ Applet} (hselected : s.obj.isSelected = true) (path : List UInt8) (data : Option Mem)
    (dataLen : Nat) :
    Meets (readEF T path data dataLen) s (fun _ s' => Begins (selectPathApdu s.obj.channel path) s s')
      (fun s' => s'.se.log = s.se.log ∨ Begins (selectPathApdu s.obj.channel path) s s') := by
  have hgrows : ∀ t t' : Linked σ Applet, Within T id (fun _ => True) (fun _ => True) t t' →
      Begins (selectPathApdu s.obj.channel path) s t → Begins (selectPathApdu s.obj.channel path) s t' := by
    rintro t t' ⟨_, more, hmore, _⟩ ⟨later, first, hlog⟩
    exact ⟨more ++ later, first, by rw [hmore, hlog, List.append_assoc]⟩
  have hfirst : Meets (selectEF T path) s (fun _ t => Begins (selectPathApdu s.obj.channel path) s t)
      (fun t => t.se.log = s.se.log ∨ Begins (selectPathApdu s.obj.channel path) s t) := by
    refine (Applet.ok_meets (fill_transmits (command_transmits T _))).mono ?_ ?_
    · rintro ok t ⟨_, ⟨_, _, hidle⟩ | ⟨_, result, events, hran, _⟩⟩
      · rw [hselected] at hidle
        cases hidle
      · obtain ⟨later, first, hevents⟩ := hran.ended.oldest
        exact ⟨later, first, by rw [hran.log_eq, hevents, List.append_assoc]; rfl⟩
    · rintro t ⟨_, events, hunderway, hlog, _⟩
      rcases hunderway.oldest with rfl | ⟨later, first, rfl⟩
      · exact .inl hlog
      · exact .inr ⟨later, first, by rw [hlog, List.append_assoc]; rfl⟩
  refine Meets.bind hfirst fun ok t hbegins => ?_
  exact ((readEF_after data dataLen ok).meets t).mono (fun _ t' hwithin => hgrows t t' hwithin hbegins)
    fun t' hwithin => .inr (hgrows t t' hwithin hbegins)

/-- **What `readEF` puts on the wire first** is the SELECT of its path, and nothing else. -/
theorem readEF_selectsPath {path : List UInt8} {s : Linked σ Applet} (hselected : s.obj.isSelected = true)
    (hattached : s.obj.attached = true) (hpath : path.length ≤ 255) (data : Option Mem) (dataLen : Nat)
    (other : List UInt8) : SelectsPath (readEF T path data dataLen) s other ↔ other = path := by
  have hdata : ((selectPathApdu s.obj.channel path).drop 5).dropLast = path := by
    simp [selectPathApdu, selectRequest, Request.apdu, Request.header]
  constructor
  · rintro ⟨fuel, later, apdu, answer, hlog, _, rfl⟩
    have hrun : (readEF T path data dataLen fuel s).2.se.log = s.se.log ∨
        Begins (selectPathApdu s.obj.channel path) s (readEF T path data dataLen fuel s).2 := by
      have hmeets := readEF_begins (T := T) hselected path data dataLen
      exact Meets.state (hmeets.mono (fun _ _ h => .inr h) fun _ h => h) fuel
    rcases hrun with hsame | ⟨more, first, hfirst⟩
    · have hlength := congrArg List.length (hlog.symm.trans hsame)
      simp only [List.length_append, List.length_cons] at hlength
      omega
    · rw [hlog] at hfirst
      have hevent := List.append_inj_right' hfirst rfl
      cases hevent
      exact hdata
  · rintro rfl
    have hputs : Puts T (selectPathApdu s.obj.channel other) s.se.card (selectPathApdu s.obj.channel other)
        s.se.card [] :=
      .first
    obtain ⟨fuel, later, hlog⟩ := puts_command (s := { s.se with apdu := selectPathApdu s.obj.channel other }) hputs
    have hafter : Within T id (fun _ => True) (fun _ => True) (selectEF T other fuel s).2
        (readEF T other data dataLen fuel s).2 := Stays.after (readEF_after data dataLen) fuel s
    obtain ⟨_, more, hmore, _⟩ := hafter
    rw [selectEF_log hselected hattached hpath, hlog, List.nil_append, ← List.append_assoc] at hmore
    exact ⟨fuel, _, _, _, hmore, rfl, hdata⟩

/-- Two ways of reading agree: they select the same path and return the same. -/
structure SameReading (wrapper direct : Exec (Linked σ Applet) (Bool × Option Mem × Nat)) (s : Linked σ Applet) : Prop where
  path : ∀ path, SelectsPath wrapper s path ↔ SelectsPath direct s path
  result : ∀ fuel, (wrapper fuel s).1 = (direct fuel s).1

/-- Readings of different paths never agree. -/
theorem not_sameReading {path path' : List UInt8} {s : Linked σ Applet} (hselected : s.obj.isSelected = true)
    (hattached : s.obj.attached = true) (hpath : path.length ≤ 255) (hpath' : path'.length ≤ 255) (hne : path ≠ path')
    (data : Option Mem) (dataLen : Nat) : ¬SameReading (readEF T path data dataLen) (readEF T path' data dataLen) s := by
  intro h
  have hsame := (h.path path).mp ((readEF_selectsPath hselected hattached hpath data dataLen path).mpr rfl)
  rw [readEF_selectsPath hselected hattached hpath' data dataLen path] at hsame
  exact hne hsame

/-- **The wrappers read another file than the SDK.** The SDK decodes the hex text and hands `readEF` four bytes, the
wrappers hand it the eight characters: for every card the two select different paths. -/
theorem wrappers_read_elsewhere {s : Linked σ Applet} (hselected : s.obj.isSelected = true)
    (hattached : s.obj.attached = true) (data : Option Mem) (dataLen : Nat) :
    (∀ fuel, 5 ≤ fuel → Sdk.efnameBytes (cstr "7FAA6F01") fuel [] = (.done 4, [0x7F, 0xAA, 0x6F, 0x01]) ∧
      Sdk.efnameBytes (cstr "7FAA6F02") fuel [] = (.done 4, [0x7F, 0xAA, 0x6F, 0x02])) ∧
    ¬SameReading (readCertificate T data dataLen) (readEF T [0x7F, 0xAA, 0x6F, 0x01] data dataLen) s ∧
    ¬SameReading (readPrivateKey T data dataLen) (readEF T [0x7F, 0xAA, 0x6F, 0x02] data dataLen) s := by
  refine ⟨fun fuel hfuel => ?_, ?_, ?_⟩
  · obtain ⟨more, rfl⟩ := Nat.exists_eq_add_of_le' hfuel
    exact ⟨rfl, rfl⟩
  · exact not_sameReading hselected hattached (by decide) (by decide) (by decide) data dataLen
  · exact not_sameReading hselected hattached (by decide) (by decide) (by decide) data dataLen

/-- The applet on channel 1, in front of a card that does not answer. -/
def silent : Linked (List (Option (List UInt8))) Applet := ⟨.create [] .zero, Applet.onChannel 1⟩

theorem wrappers_read_elsewhere_silent :
    ¬SameReading (readPrivateKey scripted none 0) (readEF scripted [0x7F, 0xAA, 0x6F, 0x02] none 0) silent :=
  (wrappers_read_elsewhere (T := scripted) (s := silent) rfl rfl none 0).2.2

theorem readCertificate_selects_text : ¬SameReading (readCertificate scripted none 0)
    (readEF scripted [0x7F, 0xAA, 0x6F, 0x01] none 0) silent := by
  intro h
  have htext : SelectsPath (readCertificate scripted none 0) silent (cstr "7FAA6F01") :=
    (readEF_selectsPath rfl rfl (by decide) none 0 _).mpr rfl
  have hbytes := (readEF_selectsPath rfl rfl (by decide) none 0 _).mp ((h.path _).mp htext)
  revert hbytes
  decide

end MF

end TrustOnboard
