import TrustOnboard.AppletSelection
import TrustOnboard.MiasTrace
import TrustOnboard.SdkModel

/-! The traces of the applet objects, seen from the SDK. -/

namespace TrustOnboard.Sdk

open Exec Linked SEInterface

variable {σ : Type} {T : Transport σ} {ins : SCIns → Prop} {notes : Note → Prop}

theorem onMF_onWire {α : Type} {kind : Event → Prop} {program : Exec (Linked σ Applet) α}
    (h : Stays (OnWire T Linked.se kind) program) : Stays (OnWire T Sdk.se kind) (onMF program) :=
  .zoom h fun _ _ hgrows => hgrows

theorem onMias_onWire {α : Type} {kind : Event → Prop} {program : Exec (Linked σ Mias) α}
    (h : Stays (OnWire T Linked.se kind) program) : Stays (OnWire T Sdk.se kind) (onMias program) :=
  .zoom h fun _ _ hgrows => hgrows

/-- A function of one of the objects that keeps to its channel. -/
theorem onMias_wire {α : Type} {program : Exec (Linked σ Mias) α}
    (h : Stays (Within T Mias.applet ins notes) program) :
    Stays (OnWire T Sdk.se (Wire ins notes)) (onMias program) :=
  onMias_onWire (h.mono fun _ _ hwithin => hwithin.onWire)

theorem onMF_wire {α : Type} {program : Exec (Linked σ Applet) α}
    (h : Stays (Within T id ins notes) program) :
    Stays (OnWire T Sdk.se (Wire ins notes)) (onMF program) :=
  onMF_onWire (h.mono fun _ _ hwithin => hwithin.onWire)

theorem selectMias_wire (hchannel : ins .manageChannel) (hselect : ins .select)
    (hnotes : ∀ n, SelectionNote n → notes n) :
    Stays (OnWire T Sdk.se (Wire ins notes)) (selectMias T) :=
  onMias_onWire (.zoom (Applet.select_onWire hchannel hselect hnotes false) fun _ _ hgrows => hgrows)

theorem deselectMias_wire (hchannel : ins .manageChannel) (hnotes : ∀ n, SelectionNote n → notes n) :
    Stays (OnWire T Sdk.se (Wire ins notes)) (deselectMias T) :=
  onMias_onWire (.zoom (Applet.deselect_onWire hchannel hnotes) fun _ _ hgrows => hgrows)

/-- The MIAS applet and the interface, replaced in the whole. -/
def setMiasApplet (t : Linked σ Applet) (s : Sdk σ) : Sdk σ :=
  { s with se := t.se, mias := { s.mias with applet := t.obj } }

theorem withStrlen_wire {kind : Event → Prop} (text : Option (List UInt8)) :
    Stays (OnWire T Sdk.se kind) (withStrlen text : Exec (Sdk σ) (List UInt8)) := by
  cases text with
  | none => exact .fault
  | some text => exact .pure _

theorem withStrlen_meets {s : Sdk σ} {post cut : Sdk σ → Prop} (h : post s) (hcut : cut s) (text : Option (List UInt8)) :
    Meets (withStrlen text : Exec (Sdk σ) (List UInt8)) s (fun _ s' => post s') cut := by
  cases text with
  | none => exact fun _ => hcut
  | some text => exact .pure h

/-- What `tobSigningSign` and `tobSigningDecrypt` have in common between selection and deselection: `found` holds from
the lookup of the key pair to VERIFY, `verified` behind it. -/
theorem keyOperation_meets {s : Sdk σ} {found verified ended cut : Sdk σ → Prop} {pin : Option (List UInt8)}
    {init : UInt8 → Exec (Linked σ Mias) Bool} {final : Exec (Linked σ Mias) Mias.Fetched}
    {missing unverified refused : Extract} {result failed : Mias.Fetched → Extract}
    (hfind : Meets (onMias (Mias.getKeyPairByContainerId T signingContainerId)) s (fun _ s' => found s') cut)
    (hcut : ∀ t, found t → cut t)
    (hverify : ∀ pin t, found t →
      Meets (onMias (Mias.verifyPin T pin)) t (fun ok s' => ended s' ∧ (ok = true → verified s')) cut)
    (hinit : ∀ kid t, verified t → Meets (onMias (init kid)) t (fun _ s' => verified s') cut)
    (hfinal : ∀ t, verified t → Meets (onMias final) t (fun _ s' => verified s') cut)
    (hfound : ∀ t, found t → ended t) (hverified : ∀ t, verified t → ended t) :
    Meets (do
      match ← onMias (Mias.getKeyPairByContainerId T signingContainerId) with
      | none => return missing
      | some index =>
          let pin ← withStrlen pin
          if ← onMias (Mias.verifyPin T pin) then
            let pair ← gets fun s => s.mias.keypairs index
            if ← onMias (init pair.kid) then
              let fetched ← onMias final
              if fetched.ok then
                return result fetched
              else
                return failed fetched
            else
              return refused
          else
            return unverified) s (fun _ s' => ended s') cut := by
  refine hfind.bind fun index t ht => ?_
  cases index with
  | none => exact .pure (hfound t ht)
  | some index =>
      refine .bind (withStrlen_meets ht (hcut t ht) pin) fun pin t ht => ?_
      refine .bind (hverify pin t ht) fun ok t ht => .ite (fun hok => ?_) fun _ => .pure ht.1
      refine .gets_bind (.bind (hinit _ t (ht.2 hok)) fun ok t ht => .ite (fun _ => ?_) fun _ => .pure (hverified t ht))
      refine .bind (hfinal t ht) fun fetched t ht => ?_
      exact .ite (fun _ => .pure (hverified t ht)) fun _ => .pure (hverified t ht)

end TrustOnboard.Sdk
