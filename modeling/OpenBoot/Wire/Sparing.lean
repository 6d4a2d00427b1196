import OpenBoot.Wire.Flashing

/-! What requests leave alone, whatever becomes of them on the link and whatever faults the
part has: during a flow, when it has failed, and when it is long over. -/

set_option autoImplicit false

namespace OpenBoot

open Semantics Program Host

variable {E : Environment port World} {D : Device} {direct : Bool} {c c' : Core} {w w' : World}
  {es : List (Event port)} {buf resp : List Byte} {act : Action} {cmd seq : Byte} {A R : Type}

/-- A part behind the port, with any of the faults it may have. -/
def OnPart (E : Environment port World) (D : Device) : Prop :=
  ∀ w op x w', E.step w op x w' → PortStep D w op x w'

/-- Commands do what they are told. -/
structure Faultless (E : Environment port World) : Prop where
  erase : ∀ {w w' : World} {a len x : Word}, E.step w (.flashErase a len) x w' → x = 0
  write : ∀ {w w' : World} {a x : Word} {buf : List Byte}, E.step w (.flashWrite a buf) x w' → x = 0
  verify : ∀ {w w' : World} {a x : Word} {buf : List Byte}, E.step w (.flashVerify a buf) x w' →
    w.flash.bytes a.toNat buf.length = buf → x = 0

theorem faultFree_onPart {shown : World → Word → Word} : OnPart (faultFree D shown) D :=
  fun _ _ _ _ step => step.1

theorem faultFree_faultless {shown : World → Word → Word} : Faultless (faultFree D shown) where
  erase := fun step => step.2
  write := fun step => step.2
  verify := fun step => step.2

theorem OnPart.silent (part : OnPart E D) : Silent E :=
  fun w op x w' read step => portEnv_silent D w op x w' read (part _ _ _ _ step)

theorem OnPart.exec {p : Program port R A} {r r' : R} {a : A} (part : OnPart E D)
    (run : p.Exec E r w es a r' w') : p.Exec (portEnv D) r w es a r' w' := run.mono part

theorem exec_spares {p : Program port R A} {r r' : R} {a : A} {s : Set Nat} (part : OnPart E D)
    (apart : ∀ e ∈ es, Disjoint s (PortOp.target e.op)) (run : p.Exec E r w es a r' w') :
    s.EqOn w'.flash w.flash := by
  induction run with
  | done => exact Set.eqOn_refl _ _
  | load _ ih => exact ih apart
  | store _ ih => exact ih apart
  | call step _ ih =>
    obtain ⟨first, rest⟩ := List.forall_mem_cons.mp apart
    exact (ih rest).trans ((part _ _ _ _ step).outside first)

theorem target_of_read {op : PortOp} (read : op.isFlash = false) : op.target = ∅ := by
  cases op with
  | xipRead32 => rfl
  | _ => cases read

theorem Sound.served {payload : List Byte} (part : OnPart E D)
    (fits : payload.length ≤ maxPayload) (sound : Sound D false c w)
    (run : (OpenBoot.dispatch D cmd payload payload.length seq).Exec E c w es (resp, .none) c' w') :
    Sound D false c' w' ∧ (c.s.session = true → c'.s.session = true) := by
  have framed := handleFrame_encode D ⟨cmd, seq, payload, fits⟩ []
  have served := part.exec run
  rw [← framed] at served
  exact ⟨sound.frame served, fun session => session_lasts sound session served⟩

/-- What arrives damaged changes nothing. -/
theorem Damaged.untouched (damaged : Damaged buf)
    (run : (handleFrame D buf).Exec E c w es (resp, act) c' w') :
    c' = c ∧ w' = w ∧ act = .none := by
  rcases handleFrame_answers D buf with ⟨-, dropped⟩ | ⟨-, reported⟩ | ⟨complete, intact, -⟩
  · rw [dropped] at run
    cases run
    exact ⟨rfl, rfl, rfl⟩
  · rw [reported] at run
    cases run
    exact ⟨rfl, rfl, rfl⟩
  · rcases damaged with cut | broken
    · exact absurd complete cut
    · exact absurd broken intact

def Requests (K : Byte × List Byte → Prop) (m : List Byte) : Prop :=
  ∃ f : Frame, K (f.cmd, f.payload) ∧ m = f.encode

variable {K : Byte × List Byte → Prop} {J : Core → World → Prop}

/-- What serving the requests keeps, the board keeps. -/
theorem requests_keep (serve : ∀ {f : Frame} {c c' : Core} {w w' : World} {es : List (Event port)}
      {resp : List Byte} {act : Action}, K (f.cmd, f.payload) → J c w →
      (dispatch D f.cmd f.payload f.payload.length f.seq).Exec E c w es (resp, act) c' w' → J c' w') :
    Duplex.Keeps (medium E D) (On J) (Requests K) := by
  rintro b b' _ m' out start ⟨f, asked, rfl⟩ arrives serves
  cases serves with
  | gone => exact start
  | frame run =>
    rcases arrives with rfl | damaged
    · have whole := handleFrame_encode D f []
      rw [List.append_nil] at whole
      rw [whole] at run
      exact serve asked start run
    · obtain ⟨rfl, rfl, -⟩ := damaged.untouched run
      exact start

/-- A program that asks only what `K` holds of leaves the board guarded. -/
theorem exec_guarded {p : Semantics.Program transport BootClient A} {s s' : BootClient}
    {l l' : Link} {es : List (Event transport)} {a : A}
    (keeps : Duplex.Keeps (medium E D) (On J) (Requests K))
    (run : p.Exec (link E D direct) s l es a s' l') (asks : ∀ e ∈ es, ∀ k, asked e = some k → K k)
    (guarded : Duplex.Guarded (On J) (Requests K) l) :
    Duplex.Guarded (On J) (Requests K) l' := by
  induction run with
  | done => exact guarded
  | load _ ih => exact ih asks guarded
  | store _ ih => exact ih asks guarded
  | @call op _ _ _ _ _ _ x _ _ step _ ih =>
    obtain ⟨first, rest⟩ := List.forall_mem_cons.mp asks
    refine ih rest ?_
    cases op with
    | xfer req timeoutMs =>
      obtain ⟨r, listens, -⟩ := step
      exact (guarded.send ⟨req, first _ rfl, rfl⟩).listens keeps listens
    | holdsInBootloader =>
      obtain ⟨-, rfl⟩ := step
      exact guarded

/-- Nothing but sessions has changed since `c₀` and `w₀`. -/
structure Greeted (D : Device) (c₀ : Core) (w₀ : World) (c : Core) (w : World) : Prop where
  sound : Sound D false c w
  core : c = { c₀ with s := c.s }
  world : w = w₀

variable {c₀ : Core} {w₀ : World} {sure : Prop}

theorem Greeted.start (sound : Sound D false c w) : Greeted D c w c w := ⟨sound, rfl, rfl⟩

theorem Greeted.hello {pl : List Byte} {n : Nat} (h : Greeted D c₀ w₀ c w)
    (run : (doHello D pl n seq).Exec E c w es resp c' w') : Greeted D c₀ w₀ c' w' := by
  rcases doHello_exec run with ⟨-, ⟨rfl, rfl, -⟩, -⟩ | ⟨-, -, rfl, rfl, -⟩
  · exact h
  · refine ⟨h.sound.sessionOpen, ?_, h.world⟩
    rw [h.core]
    rfl

theorem greet_triple (parses : sure → DeviceInfo.parse (helloPayload D c₀) = .ok (reported D c₀)) :
    Triple E D direct sure (·.1 ∈ [cmdHello]) (On (Greeted D c₀ w₀)) (Flow.plain BootClient.hello)
      fun info b => On (fun c w => Greeted D c₀ w₀ c w ∧ c.s.session = true) b ∧
        info.val = reported D c₀ := by
  have performs : Performs E D cmdHello (helloReqPayload protoMajor protoMinor).val
      (fun c w => Greeted D c₀ w₀ c w ∨ Greeted D c₀ w₀ c w ∧ c.s.session = true)
      (fun c w => Greeted D c₀ w₀ c w ∧ c.s.session = true) (· = helloPayload D c₀) sure := by
    apply Performs.of_phase (by decide)
    intro c c' w w' seq es resp act start run
    have greeted : Greeted D c₀ w₀ c w := start.elim id And.left
    obtain ⟨-, handled⟩ : _ ∧ (doHello D _ _ seq).Exec _ c w es resp c' w' :=
      dispatch_handled (.inl rfl) (.inl rfl) run
    have passes : HelloPasses (helloReqPayload protoMajor protoMinor).val helloReqLen :=
      ⟨rfl, get32_put32_append _ _, by decide⟩
    have after := greeted.hello handled
    rcases doHello_exec handled with ⟨fails, -⟩ | ⟨-, rfl, rfl, rfl, rfl⟩
    · exact absurd passes fails
    have same : helloPayload D (c.sessionOpen D) = helloPayload D c₀ := by
      apply helloPayload_congr
      · rw [greeted.core]
        rfl
      · rw [greeted.core]
        rfl
    rw [same]
    exact .inl ⟨_, rfl, helloPayload_fits, ⟨after, rfl⟩, rfl⟩
  exact Triple.adapt (Triple.hello performs parses)

end OpenBoot
