import OpenBoot.Host.Planning
import OpenBoot.Update.Generations
import OpenBoot.Update.Interruption
import OpenBoot.Wire.Attesting

/-! One update is atomic. Whatever the link and the flash do, and at whatever instant power goes,
the next reset selects the slot it would have selected before the update, unchanged, or the other
slot with a record of the very image the host chose.

A host that is cut off is one that hears nothing from then on, so power may go in the middle of
a flow as well as long after it.
-/

set_option autoImplicit false

namespace OpenBoot

open Semantics Program Host

variable {E : Environment port World} {D : Device} {direct : Bool} {c c' : Core} {w w' w₀ : World}
  {es : List (Event port)} {buf resp payload : List Byte} {act : Action} {cmd seq : Byte}
  {f g : Flash} {a slot len crc : Word} {A X : Type}

/-! ### The frames of one update -/

theorem Cycle.void (h : Cycle D a f [(0, crc)] g) : Cycle D a f [] g := by
  refine ⟨h.kept, h.target.imp_right (Or.imp_right ?_)⟩
  rintro ⟨len, crc', mem, found, -⟩
  obtain ⟨rfl, rfl⟩ := Prod.mk.inj (List.mem_singleton.mp mem)
  obtain ⟨-, -, -, accepted⟩ := recordOn_some found
  exact absurd rfl accepted.geometry.nonzero

/-- A request of an update of this slot: it erases and writes from inside the slot, and commits
    one image. -/
structure OfUpdate (D : Device) (slot len crc : Word) (k : Byte × List Byte) : Prop where
  request : IsRequest k.1
  place : k.1 = cmdErase ∨ k.1 = cmdWrite → (get32 k.2).toNat ∈ D.imageArea slot
  image : k.1 = cmdCommit → k.2 = (commitReqPayload len crc).val

/-- The COMMIT of the image has changed the roles of the slots. -/
structure Rolled (D : Device) (a len crc : Word) (c : Core) (w : World) : Prop where
  slot : c.writeSlot = a
  known : Recorded len crc c
  attests : Attests D w.flash (otherSlot a) len crc

/-- Which slot is next, during a power cycle that began with slot `a` active: before the
    COMMIT of the image, and after it. -/
inductive Roles (D : Device) (a : Word) (f : Flash) (len crc : Word) (c : Core) (w : World) : Prop where
  | before : c.writeSlot = otherSlot a → c.highestGen = highestOn D f → c.recState ≠ .fresh →
      Roles D a f len crc c w
  | after : Rolled D a len crc c w → Roles D a f len crc c w

/-- The core and the flash at some point of an update. -/
structure Underway (D : Device) (a : Word) (f : Flash) (len crc : Word) (c : Core) (w : World) :
    Prop where
  sound : Sound D false c w
  cycle : Cycle D a f [(len, crc)] w.flash
  roles : Roles D a f len crc c w

theorem Underway.started {bootreq : Word} (some : selectOn D f ≠ slotNone) :
    Underway D (selectOn D f) f len crc (.started D f bootreq) (.reset f) where
  sound := sound_started D f bootreq
  cycle := .start _ _ _ _
  roles := by
    refine .before ?_ rfl nofun
    simp only [Core.started, some, if_false]

theorem Rolled.sessionOpen (h : Rolled D a len crc c w) : Rolled D a len crc (c.sessionOpen D) w :=
  ⟨h.slot, ⟨h.known.fresh, h.known.len, h.known.crc⟩, h.attests⟩

theorem Rolled.stay (h : Rolled D a len crc c w) :
    Rolled D a len crc { c with bootreq := bootreqMagic } w :=
  ⟨h.slot, ⟨h.known.fresh, h.known.len, h.known.crc⟩, h.attests⟩

theorem Roles.sessionOpen (h : Roles D a f len crc c w) :
    Roles D a f len crc (c.sessionOpen D) w := by
  cases h with
  | before slot gen old => exact .before slot gen old
  | after rolled => exact .after rolled.sessionOpen

theorem Roles.stay (h : Roles D a f len crc c w) :
    Roles D a f len crc { c with bootreq := bootreqMagic } w := by
  cases h with
  | before slot gen old => exact .before slot gen old
  | after rolled => exact .after rolled.stay

theorem Underway.frame (h : Underway D a f len crc c w) (slot : c.writeSlot = otherSlot a)
    (gen : c.highestGen = highestOn D f) (old : c.recState ≠ .fresh)
    (only : ∀ q, commitOf buf = some q → q = (len, crc))
    (run : (handleFrame D buf).Exec (portEnv D) c w es (resp, act) c' w') :
    Cycle D a f [(len, crc)] w'.flash ∧ Roles D a f len crc c' w' := by
  have asked : ∀ q, commitOf buf = some q → q ∈ [(len, crc)] := fun q commit =>
    List.mem_singleton.mpr (only q commit)
  -- as long as the roles stand, so do the counter and what is known of the records
  have kept := handleFrame_keeps (J := fun c₁ w₁ => Sound D (commitOf buf).isSome c₁ w₁ ∧
      Cycle D a f [(len, crc)] w₁.flash ∧
      (c₁.writeSlot = c.writeSlot → c₁.highestGen = c.highestGen ∧ c₁.recState ≠ .fresh) ∧
      (c₁.writeSlot ≠ c.writeSlot → Attests D w₁.flash c.writeSlot len crc))
    h.sound ?_ ?_ run ⟨h.sound.weaken, h.cycle, fun _ => ⟨rfl, old⟩, fun moved => absurd rfl moved⟩
  · obtain ⟨-, cycle, counters, attests⟩ := kept
    refine ⟨cycle, ?_⟩
    have same (still : c'.writeSlot = c.writeSlot) : Roles D a f len crc c' w' :=
      .before (still.trans slot) ((counters still).1.trans gen) (counters still).2
    cases wp_exec (handleFrame_wp h.sound) run with
    | kept => exact h.roles
    | replayed _ _ fresh => exact absurd fresh old
    | opened => exact h.roles.sessionOpen
    | stayed => exact h.roles.stay
    | launched => exact h.roles
    | changed _ _ still => exact same still
    | failed _ _ _ _ _ _ still => exact same still
    | committed accepted _ _ fresh at_len at_crc _ _ flipped =>
      obtain ⟨rfl, rfl⟩ := Prod.mk.inj (only _ accepted.request)
      refine .after ⟨?_, ⟨fresh, at_len, at_crc⟩, slot ▸ attests ?_⟩
      · rw [flipped, slot, otherSlot_otherSlot]
      · rw [flipped]
        exact otherSlot_ne _
  · rintro c₁ c₂ w₁ step ⟨sound, cycle, counters, attests⟩
    refine ⟨sound.ram step, cycle, ?_⟩
    cases step with
    | committed _ sealing =>
      obtain ⟨rfl, rfl⟩ := Prod.mk.inj (only _ sealing.request)
      rw [← sealing.slot]
      exact ⟨fun still => absurd still (otherSlot_ne _), fun _ => sealing.attests sound.slot⟩
    | distrusted => exact ⟨fun still => ⟨(counters still).1, nofun⟩, attests⟩
    | _ => exact ⟨counters, attests⟩
  · rintro c₁ w₁ op x w₂ permit step ⟨sound, cycle, counters, attests⟩
    rcases permit.cases step with rfl | ⟨same, -, command⟩
    · exact ⟨sound, cycle, counters, attests⟩
    · exact ⟨sound.permit permit step, cycle.command sound (same.trans slot) gen asked command step,
        counters, fun moved => absurd same moved⟩

theorem commitOf_other (q : Frame) (other : q.cmd ≠ cmdCommit) : commitOf q.encode = none := by
  have read := (q.encode_sealed []).request
  rw [List.append_nil] at read
  exact commitOf_of_ne read other

theorem outside_after (isSlot : IsSlot c.writeSlot) {addr len : Word}
    (place : addr.toNat ∈ D.imageArea (otherSlot c.writeSlot)) : writeRangeOk D c addr len = false := by
  apply Bool.eq_false_of_not_eq_true
  intro accepted
  obtain ⟨-, some, low, high⟩ := writeRangeOk_spec isSlot accepted
  have top := D.recordAt_add isSlot
  have top' := D.recordAt_add isSlot.other
  have inside := place.2
  exact Set.disjoint_left.mp (D.span_disjoint isSlot) ⟨low, by omega⟩ ⟨place.1, by omega⟩

theorem OnPart.frame {out : List Byte × Action} (part : OnPart E D) (fits : payload.length ≤ maxPayload)
    (run : (dispatch D cmd payload payload.length seq).Exec E c w es out c' w') :
    (handleFrame D (⟨cmd, seq, payload, fits⟩ : Frame).encode).Exec (portEnv D) c w es out c' w' := by
  have framed := handleFrame_encode D ⟨cmd, seq, payload, fits⟩ []
  rw [List.append_nil] at framed
  rw [framed]
  exact part.exec run

theorem Underway.again (part : OnPart E D) (h : Underway D a f len crc c w) (rolled : Rolled D a len crc c w)
    (fits : payload.length ≤ maxPayload)
    (of : OfUpdate D (otherSlot a) len crc (cmd, payload))
    (run : (dispatch D cmd payload payload.length seq).Exec E c w es (resp, act) c' w') :
    w' = w ∧ Rolled D a len crc c' w' := by
  have dispatched := dispatch_exec (q := ⟨cmd, seq, payload, payload.length⟩) run
  -- the roles have changed: what the update wrote to is the active slot now
  have barred {len : Word} (mutates : cmd = cmdErase ∨ cmd = cmdWrite) :
      writeRangeOk D c (get32 payload) len = false :=
    outside_after h.sound.slot (rolled.slot ▸ of.place mutates)
  cases dispatched with
  | unknown => exact ⟨rfl, rolled⟩
  | closed => exact ⟨rfl, rolled⟩
  | hello _ handled =>
    rcases doHello_exec handled with ⟨-, ⟨rfl, rfl, -⟩, -⟩ | ⟨-, -, rfl, rfl, -⟩
    · exact ⟨rfl, rolled⟩
    · exact ⟨rfl, rolled.sessionOpen⟩
  | crc _ _ handled =>
    rcases doCrc_exec part.silent handled with ⟨-, ⟨rfl, rfl, -⟩, -⟩ | ⟨-, ⟨rfl, rfl, -⟩, -⟩
    · exact ⟨rfl, rolled⟩
    · exact ⟨rfl, rolled⟩
  | erase is _ handled =>
    rcases doErase_exec handled with ⟨-, ⟨rfl, rfl, -⟩, -⟩ | ⟨passes, -⟩
    · exact ⟨rfl, rolled⟩
    · have inside := passes.inside
      rw [barred (.inl is)] at inside
      cases inside
  | write is _ handled =>
    rcases doWrite_exec handled with ⟨-, ⟨rfl, rfl, -⟩, -⟩ | ⟨-, -, ⟨rfl, rfl, -⟩, -⟩ | ⟨passes, -⟩
    · exact ⟨rfl, rolled⟩
    · exact ⟨rfl, rolled⟩
    · have inside := passes.inside
      rw [barred (.inr is)] at inside
      cases inside
  | commit is session handled =>
    obtain rfl : cmd = cmdCommit := is
    obtain rfl : payload = (commitReqPayload len crc).val := of.image rfl
    obtain ⟨-, -, -, serves⟩ := commit_serves part h.sound run
    cases serves with
    | refused => exact ⟨rfl, rolled⟩
    | again => exact ⟨rfl, rolled⟩
    | failed new => exact absurd rolled.known new
    | stored new => exact absurd rolled.known new
  | boot _ _ handled =>
    rcases doBoot_exec part.silent handled with ⟨-, ⟨rfl, rfl, -⟩, -⟩ | ⟨rfl, -⟩
    · exact ⟨rfl, rolled⟩
    · cases wp_exec (handleFrame_wp h.sound) (part.frame fits run) with
      | stayed => exact ⟨rfl, rolled.stay⟩
      | launched => exact ⟨rfl, rolled⟩

/-- Every request of the update, at any point of it. -/
theorem Underway.serve (part : OnPart E D) (h : Underway D a f len crc c w)
    (fits : payload.length ≤ maxPayload) (of : OfUpdate D (otherSlot a) len crc (cmd, payload))
    (run : (dispatch D cmd payload payload.length seq).Exec E c w es (resp, act) c' w') :
    Underway D a f len crc c' w' := by
  have served := part.frame fits run
  have sound : Sound D false c' w' := by
    cases act with
    | none => exact h.sound.frame served
    | reset =>
      cases wp_exec (handleFrame_wp h.sound) served with
      | stayed => exact h.sound.stay
      | launched => exact h.sound
  cases h.roles with
  | before slot gen old =>
    have only : ∀ q, commitOf (⟨cmd, seq, payload, fits⟩ : Frame).encode = some q → q = (len, crc) := by
      intro q commit
      by_cases is : cmd = cmdCommit
      · subst is
        obtain rfl : payload = (commitReqPayload len crc).val := of.image rfl
        exact (Option.some.inj (commitOf_frame.symm.trans commit)).symm
      · rw [commitOf_other _ is] at commit
        cases commit
    obtain ⟨cycle, roles⟩ := h.frame slot gen old only served
    exact ⟨sound, cycle, roles⟩
  | after rolled =>
    obtain ⟨rfl, still⟩ := h.again part rolled fits of run
    exact ⟨sound, h.cycle, .after still⟩

inductive Amid (D : Device) (buf : List Byte) (c₀ : Core) (w₀ w : World) : Prop where
  | mk {ls : List Label} {p : Code Outcome} {c : Core} : (∀ l ∈ ls, l.Inner) →
      (machine D).Run (.busy (.frame buf) (serve D buf) c₀ w₀) ls (.busy (.frame buf) p c w) →
      Amid D buf c₀ w₀ w

/-- What is in flash when power goes: while nothing is served, or while something is that is still
    on the way. -/
inductive Cut (D : Device) (l : Link) : Flash → Prop where
  | between : Cut D l l.server.world.flash
  | amid {m m' : List Byte} {w : World} : l.server.booted = false → m ∈ l.up → m' = m ∨ Damaged m' →
      Amid D m' l.server.core l.server.world w → Cut D l w.flash

/-- Whatever code is in the middle of, it may end with the flash as it is. -/
theorem exec_unharmed (p : Code A) (c : Core) (w : World) :
    ∃ es x c' w', p.Exec (portEnv D) c w es x c' w' ∧ w'.flash = w.flash := by
  induction p generalizing c w with
  | done x => exact ⟨[], x, c, w, .done, rfl⟩
  | load next ih =>
    obtain ⟨es, x, c', w', run, same⟩ := ih c c w
    exact ⟨es, x, c', w', .load run, same⟩
  | store ram next ih =>
    obtain ⟨es, x, c', w', run, same⟩ := ih ram w
    exact ⟨es, x, c', w', .store run, same⟩
  | call op next ih =>
    obtain ⟨y, w₁, step, unharmed⟩ : ∃ y w₁, PortStep D w op y w₁ ∧ w₁.flash = w.flash := by
      cases op with
      | flashErase addr len => exact ⟨1, _, .eraseKept (by decide : (1 : Word) ≠ 0), rfl⟩
      | flashWrite addr buf =>
        refine ⟨1, _, .writeFailed 0 (by decide : (1 : Word) ≠ 0), ?_⟩
        funext x
        change Nor.program w.flash addr.toNat [] x = w.flash x
        exact Nor.program_outside (Nat.lt_or_ge x addr.toNat)
      | flashVerify addr buf => exact ⟨1, _, .verifyFailed (by decide : (1 : Word) ≠ 0), rfl⟩
      | xipRead32 addr => exact ⟨_, w, .read (.inl rfl), rfl⟩
    obtain ⟨es, x, c', w', run, same⟩ := ih y c w₁
    exact ⟨_, x, c', w', .call step run, same.trans unharmed⟩

/-- What completes the work completes it from where it began. -/
theorem run_inner {t : Task} {p : Code Outcome} {ls : List Label} {cfg : Config}
    (inner : ∀ l ∈ ls, l.Inner) (run : (machine D).Run (.busy t p c w) ls cfg) :
    ∃ p' c₁ w₁, cfg = .busy t p' c₁ w₁ ∧ ∀ es o c₂ w₂, p'.Exec (portEnv D) c₁ w₁ es o c₂ w₂ →
      ∃ es', p.Exec (portEnv D) c w es' o c₂ w₂ := by
  induction run with
  | nil => exact ⟨p, c, w, rfl, fun es o c₂ w₂ run => ⟨es, run⟩⟩
  | @snoc _ _ ls l _ step ih =>
    obtain ⟨earlier, last⟩ := List.forall_mem_append.mp inner
    obtain ⟨p', c₁, w₁, rfl, completes⟩ := ih earlier
    have inner := last l (List.mem_singleton_self l)
    cases step with
    | reset => exact inner.elim
    | out => exact inner.elim
    | load => exact ⟨_, _, _, rfl, fun es o c₂ w₂ run => completes _ _ _ _ (.load run)⟩
    | store => exact ⟨_, _, _, rfl, fun es o c₂ w₂ run => completes _ _ _ _ (.store run)⟩
    | call port => exact ⟨_, _, _, rfl, fun es o c₂ w₂ run => completes _ _ _ _ (.call port run)⟩

theorem Amid.completed (amid : Amid D buf c w₀ w) : ∃ es resp act c' w',
    (handleFrame D buf).Exec (portEnv D) c w₀ es (resp, act) c' w' ∧ w'.flash = w.flash := by
  obtain ⟨inner, run⟩ := amid
  obtain ⟨p, c₁, w₁, same, completes⟩ := run_inner inner run
  obtain ⟨-, -, -, rfl⟩ := Config.busy.inj same
  obtain ⟨es, o, c₂, w₂, rest, unharmed⟩ := @exec_unharmed D _ p c₁ w
  obtain ⟨es', served⟩ := completes _ _ _ _ rest
  unfold serve at served
  obtain ⟨es₁, _, ⟨resp, act⟩, c₃, w₃, -, handled, last⟩ := exec_bind.mp served
  obtain ⟨-, -, rfl, rfl⟩ := exec_pure.mp last
  exact ⟨es₁, resp, act, _, _, handled, unharmed⟩

theorem Underway.keeps (part : OnPart E D) :
    Duplex.Keeps (medium E D) (On (Underway D a f len crc)) (Requests (OfUpdate D (otherSlot a) len crc)) :=
  requests_keep fun {q} {_ _ _ _ _ _ _} of start run => start.serve part q.fits of run

/-- Wherever the power goes, the update is somewhere between its beginning and its end. -/
theorem Underway.cut {l : Link}
    (h : Duplex.Guarded (On (Underway D a f len crc)) (Requests (OfUpdate D (otherSlot a) len crc)) l)
    (cut : Cut D l g) : Cycle D a f [(len, crc)] g := by
  cases cut with
  | between => exact h.inv.cycle
  | @amid m m' w on mem arrives amid =>
    obtain ⟨q, of, rfl⟩ := h.safe m mem
    obtain ⟨es, resp, act, c', w', run, same⟩ := amid.completed
    obtain ⟨⟨c, w₀, booted⟩, up, down⟩ := l
    obtain rfl : booted = false := on
    have serves : Board.Serves (portEnv D) D ⟨c, w₀, false⟩ m' _ ⟨c', w', decide (act = .reset)⟩ :=
      .frame run
    have done := Underway.keeps (fun _ _ _ _ step => step) _ _ _ m' _ h.inv ⟨q, of, rfl⟩ arrives serves
    rw [← same]
    exact done.cycle

/-- A host that asks nothing but one update, at whatever instant power goes. -/
theorem update_atomic {p : Semantics.Program transport BootClient A} {s s' : BootClient}
    {l l' l'' : Link} {x : A} {es : List (Event transport)} (part : OnPart E D)
    (quiet : l.Quiet) (start : On (Underway D a f len crc) l.server)
    (asks : ∀ e ∈ es, ∀ k, asked e = some k → OfUpdate D (otherSlot a) len crc k)
    (run : p.Exec (link E D direct) s l es x s' l')
    (after : Relation.ReflTransGen (Duplex.Moves (medium E D)) l' l'') (cut : Cut D l'' g) :
    Cycle D a f [(len, crc)] g := by
  have guarded := exec_guarded (Underway.keeps part) run asks (.quiet quiet start)
  exact Underway.cut (guarded.later (Underway.keeps part) after) cut

/-! ### What an answer OK tells -/

theorem Underway.performs (part : OnPart E D) (of : OfUpdate D (otherSlot a) len crc (cmd, payload))
    (fits : payload.length ≤ maxPayload) : Performs E D cmd payload (Underway D a f len crc)
      (Underway D a f len crc) (fun _ => True) False where
  request := of.request
  serve := by
    intro c c' w w' seq es resp act start run
    have after := start.serve part fits of run
    obtain ⟨status, rest, same, small, -⟩ := (dispatch_answers D cmd payload _ seq).exec run
    exact ⟨after, fun _ => after, status, rest, same, small, fun _ => ⟨after, trivial⟩, False.elim⟩

theorem Rolled.performs (part : OnPart E D) (of : OfUpdate D (otherSlot a) len crc (cmd, payload))
    (fits : payload.length ≤ maxPayload) : Performs E D cmd payload
      (fun c w => Underway D a f len crc c w ∧ Rolled D a len crc c w)
      (fun c w => Underway D a f len crc c w ∧ Rolled D a len crc c w) (fun _ => True) False where
  request := of.request
  serve := by
    rintro c c' w w' seq es resp act ⟨start, rolled⟩ run
    have after := start.serve part fits of run
    have still := (start.again part rolled fits of run).2
    obtain ⟨status, rest, same, small, -⟩ := (dispatch_answers D cmd payload _ seq).exec run
    exact ⟨⟨after, still⟩, fun _ => ⟨after, still⟩, status, rest, same, small,
      fun _ => ⟨⟨after, still⟩, trivial⟩, False.elim⟩

theorem OfUpdate.commits : OfUpdate D slot len crc (cmdCommit, (commitReqPayload len crc).val) :=
  ⟨(by decide : IsRequest cmdCommit),
    fun mutates => absurd mutates (by decide : ¬ (cmdCommit = cmdErase ∨ cmdCommit = cmdWrite)),
    fun _ => rfl⟩

theorem Rolled.commit (part : OnPart E D) : Performs E D cmdCommit (commitReqPayload len crc).val
    (Underway D a f len crc) (fun c w => Underway D a f len crc c w ∧ Rolled D a len crc c w)
    (fun _ => True) False where
  request := by decide
  serve := by
    intro c c' w w' seq es resp act start run
    have after := start.serve part (commitReqPayload len crc).property .commits run
    have stays (rolled : Rolled D a len crc c w) : Rolled D a len crc c' w' :=
      (start.again part rolled (commitReqPayload len crc).property .commits run).2
    have failed {status detail : Byte} (bad : status ≠ ok)
        (same : resp = errResp cmdCommit seq status detail) :
        ∃ status rest, resp = finish (cmdCommit ||| cmdRespBit) seq (status :: rest) ∧
          (status :: rest).length ≤ maxPayload ∧ (status = ok → (Underway D a f len crc c' w' ∧
            Rolled D a len crc c' w') ∧ True) ∧ (False → status = ok) :=
      ⟨status, [detail], same, (by decide : 2 ≤ maxPayload), fun fine => absurd fine bad, False.elim⟩
    have succeeds (rolled : Rolled D a len crc c' w') (same : resp = okResp cmdCommit seq) :
        ∃ status rest, resp = finish (cmdCommit ||| cmdRespBit) seq (status :: rest) ∧
          (status :: rest).length ≤ maxPayload ∧ (status = ok → (Underway D a f len crc c' w' ∧
            Rolled D a len crc c' w') ∧ True) ∧ (False → status = ok) :=
      ⟨ok, [], same, by decide, fun _ => ⟨⟨after, rolled⟩, trivial⟩, False.elim⟩
    refine ⟨after, fun h => ⟨after, stays h.2⟩, ?_⟩
    obtain ⟨-, -, -, serves⟩ := commit_serves part start.sound run
    -- a COMMIT is answered with OK when it stores the record and when it repeats itself
    cases serves with
    | refused bad => exact failed bad rfl
    | failed _ _ same => exact failed (by decide) same
    | again known =>
      cases start.roles with
      | before _ _ old => exact absurd known.fresh old
      | after rolled => exact succeeds rolled rfl
    | stored new known _ flipped _ attests =>
      cases start.roles with
      | before slot =>
        rw [slot, otherSlot_otherSlot] at flipped
        exact succeeds ⟨flipped, known, slot ▸ attests⟩ rfl
      | after rolled => exact absurd rolled.known new

/-- From a quiet link to a board in `Pre`: if the program succeeds, the link is quiet again and
    `Post` holds. -/
def Ensures (E : Environment port World) (D : Device) (direct : Bool) (Pre : Board → Prop)
    (q : ExceptT X (Semantics.Program transport BootClient) A) (Post : Board → Prop) : Prop :=
  ∀ s l es x s' l', l.Quiet → Pre l.server → q.run.Exec (link E D direct) s l es (.ok x) s' l' →
    l'.Quiet ∧ Post l'.server

namespace Ensures

variable {B Y : Type} {Pre Mid Post : Board → Prop} {J Done : Core → World → Prop}
  {q : ExceptT X (Semantics.Program transport BootClient) A}
  {k : A → ExceptT X (Semantics.Program transport BootClient) B}

theorem bind (first : Ensures E D direct Pre q Mid) (rest : ∀ x, Ensures E D direct Mid (k x) Post) :
    Ensures E D direct Pre (q >>= k) Post := by
  intro s l es x s' l' quiet start run
  rcases exec_seq.mp run with ⟨_, fails, -⟩ | ⟨_, _, _, _, _, -, done, later⟩
  · cases fails
  · obtain ⟨quiet, mid⟩ := first _ _ _ _ _ _ quiet start done
    exact rest _ _ _ _ _ _ _ quiet mid later

theorem adapt {g : X → Y} (h : Ensures E D direct Pre q Post) : Ensures E D direct Pre (q.adapt g) Post := by
  intro s l es x s' l' quiet start run
  obtain ⟨y, ran, same⟩ := exec_adapt run
  cases y with
  | ok => exact h _ _ _ _ _ _ quiet start ran
  | error => cases same

theorem run {payload : Payload} {name : String} {timeoutMs : Nat} {policy : RetryPolicy}
    (performs : Performs E D cmd payload.val J Done (fun _ => True) False)
    (permitted : 0 < policy.attempts ∧ policy.attempts ≤ 256) :
    Ensures E D direct (On J) (BootClient.run name cmd payload timeoutMs policy) (On Done) := by
  intro s l es x s' l' quiet start run
  have triple : Triple E D direct False (· = (cmd, payload.val)) (On J)
      (BootClient.run name cmd payload timeoutMs policy) fun _ => On Done :=
    Triple.run performs permitted fun _ _ post _ => post
  rcases (triple s l es _ s' l' quiet start run).2 with ⟨_, -, quiet, post⟩ | ⟨_, fails, -⟩
  · exact ⟨quiet, post⟩
  · cases fails

theorem sends {K : Byte × List Byte → Prop} (sends : Sends K q)
    (commands : ∀ {cmd : Byte} {payload : Payload}, K (cmd, payload.val) →
      Performs E D cmd payload.val J J (fun _ => True) False) :
    Ensures E D direct (On J) q (On J) := by
  induction sends with
  | pure =>
    intro s l es x s' l' quiet start run
    obtain ⟨-, -, -, rfl⟩ := exec_return.mp run
    exact ⟨quiet, start⟩
  | throw =>
    intro s l es x s' l' quiet start run
    obtain ⟨-, fails, -⟩ := exec_throw.mp run
    cases fails
  | check =>
    intro s l es x s' l' quiet start run
    obtain ⟨-, -, -, rfl⟩ := exec_mk.mp run
    exact ⟨quiet, start⟩
  | holds =>
    intro s l es x s' l' quiet start run
    obtain ⟨_, -, run⟩ := exec_lift.mp run
    obtain ⟨-, -, -, rfl⟩ := exec_perform.mp run
    exact ⟨quiet, start⟩
  | bind _ _ first rest => exact first.bind rest
  | adapt _ ih => exact ih.adapt
  | run of permitted => exact Ensures.run (commands of) permitted

end Ensures

/-! ### The flash flow -/

section
variable {image : Image} {p : FlashPlan} {info : DeviceInfo} {usable : info.Usable} {opts : FlashOpts}

abbrev OfImage (D : Device) (slot : Word) (image : Image) : Byte × List Byte → Prop :=
  OfUpdate D slot (BitVec.ofNat 32 image.bytes.length) image.crc32

theorem OfUpdate.passive {pl : List Byte} (request : IsRequest cmd)
    (passive : cmd ∉ [cmdErase, cmdWrite, cmdCommit]) : OfUpdate D slot len crc (cmd, pl) := by
  simp only [List.mem_cons, List.not_mem_nil, or_false, not_or] at passive
  exact ⟨request, fun mutates => (mutates.elim passive.1 passive.2.1).elim,
    fun commit => absurd commit passive.2.2⟩

theorem OfUpdate.inside {pl : List Byte} (mutates : cmd ∈ [cmdErase, cmdWrite])
    (place : (get32 pl).toNat ∈ D.imageArea slot) : OfUpdate D slot len crc (cmd, pl) := by
  simp only [List.mem_cons, List.not_mem_nil, or_false] at mutates
  refine ⟨?_, fun _ => place, fun commit => ?_⟩
  · rcases mutates with rfl | rfl
    · exact (by decide : IsRequest cmdErase)
    · exact (by decide : IsRequest cmdWrite)
  · obtain rfl : cmd = cmdCommit := commit
    exact absurd mutates (by decide)

theorem eraseLoop_ofUpdate {start total block chunkLen : Word} {fuel : Nat} {done : Word}
    (low : D.base slot ≤ start.toNat) (high : start.toNat + total.toNat ≤ D.recordAt slot)
    (limit : D.recordAt slot < 2 ^ 32) :
    Sends (OfUpdate D slot len crc) (Host.eraseLoop start total block chunkLen fuel done) := by
  induction fuel generalizing done with
  | zero => exact .pure _
  | succ fuel ih =>
    unfold Host.eraseLoop
    split
    · next more =>
      have more := BitVec.lt_def.mp more
      have at_addr : (start + done).toNat = start.toNat + done.toNat := by
        rw [BitVec.toNat_add, Nat.mod_eq_of_lt (by omega)]
      refine Sends.bind (Sends.adapt (Sends.command (.inside (by decide) ?_) retries)) fun _ => ih
      have at_pl (n : Word) : get32 (eraseReqPayload (start + done) n).val = start + done :=
        (get32_words _ _).1
      rw [at_pl, at_addr]
      exact ⟨by omega, by omega⟩
    · exact .pure _

theorem writeLoop_ofUpdate {fuel off : Nat} (low : D.base slot ≤ image.base.toNat)
    (high : image.base.toNat + p.len ≤ D.recordAt slot) (limit : D.recordAt slot < 2 ^ 32) :
    Sends (OfUpdate D slot len crc) (Host.writeLoop image p fuel off) := by
  induction fuel generalizing off with
  | zero => exact .pure _
  | succ fuel ih =>
    unfold Host.writeLoop
    split
    · next more =>
      have at_addr : (image.base + BitVec.ofNat 32 off).toNat = image.base.toNat + off := by
        rw [BitVec.toNat_add, BitVec.toNat_ofNat, Nat.mod_eq_of_lt (by omega : off < 2 ^ 32),
          Nat.mod_eq_of_lt (by omega)]
      refine Sends.bind (Sends.adapt (Sends.command (.inside (by decide) ?_) retries)) fun _ => ih
      have at_pl : get32 (writeReqPayload (image.base + BitVec.ofNat 32 off) (chunkAt image p off)).val =
          image.base + BitVec.ofNat 32 off := get32_put32_append _ _
      rw [at_pl, at_addr]
      exact ⟨by omega, by omega⟩
    · exact .pure _

theorem boot_ofUpdate {mode : BootMode} : Sends (OfUpdate D slot len crc) (bootDevice mode) :=
  (Sends.command (.passive (by decide) (by decide)) (by decide)).adapt

theorem verify_ofUpdate : Sends (OfUpdate D slot len crc) (verifyFlash image p) := by
  have reads : Sends (OfUpdate D slot len crc) (BootClient.crc image.base (BitVec.ofNat 32 p.len)) := by
    refine Sends.bind (Sends.run (.passive (by decide) (by decide)) retries) fun resp => ?_
    split
    · exact .throw _
    · exact .pure _
  unfold verifyFlash
  split
  · refine reads.adapt.bind fun v => ?_
    split
    · exact .throw _
    · exact .pure _
  · exact .pure _
  · exact .pure _

theorem finish_ofUpdate : Sends (OfUpdate D slot len crc) (finishFlash p) := by
  unfold finishFlash
  split
  · exact boot_ofUpdate
  · refine Sends.holds.bind fun holds => ?_
    split
    · exact .pure _
    · exact boot_ofUpdate

/-- Carrying out a plan asks nothing but the update of the slot; if it succeeds, the image is
    committed. -/
theorem executeFlash_updates (f : Flash) (direct : Bool) (part : OnPart E D)
    (planned : planFlash info usable image opts = .ok p)
    (base : info.writeBase = D.slotBase slot)
    (window : D.base slot + info.writeCapacity.toNat ≤ D.recordAt slot)
    (limit : D.recordAt slot < 2 ^ 32) (other : otherSlot a = slot) :
    Sends (OfImage D slot image) (executeFlash image p) ∧
      Ensures E D direct (On (Underway D a f (BitVec.ofNat 32 image.bytes.length) image.crc32))
        (executeFlash image p)
        (On fun c w => Underway D a f (BitVec.ofNat 32 image.bytes.length) image.crc32 c w ∧
          Rolled D a (BitVec.ofNat 32 image.bytes.length) image.crc32 c w) := by
  obtain ⟨at_base, -, room, span⟩ := planFlash_isOk.mp ⟨p, planned⟩
  obtain ⟨at_len, -, at_span, at_crc, -⟩ := planFlash_fields planned
  have start : image.base.toNat = D.base slot := by rw [at_base, base]; rfl
  subst other
  -- each loop sends requests of this update alone, and these keep what is underway
  have erases : Sends (OfImage D (otherSlot a) image) (eraseRegion image.base p.eraseLen p.block) :=
    eraseLoop_ofUpdate start.ge (by rw [start, at_span]; omega) limit
  have writes : Sends (OfImage D (otherSlot a) image) (Host.writeLoop image p p.len 0) :=
    writeLoop_ofUpdate start.ge (by rw [start, at_len]; omega) limit
  have commits : Sends (OfImage D (otherSlot a) image) (BootClient.commit (BitVec.ofNat 32 p.len) p.crc) := by
    rw [at_len, at_crc]
    exact Sends.command .commits retries
  constructor
  · exact erases.bind fun _ => writes.bind fun _ => commits.adapt.bind fun _ =>
      verify_ofUpdate.bind fun _ => finish_ofUpdate
  · have keeps {B Y : Type} {q : ExceptT Y (Semantics.Program transport BootClient) B}
        (sends : Sends (OfImage D (otherSlot a) image) q) :
        Ensures E D direct (On (Underway D a f (BitVec.ofNat 32 image.bytes.length) image.crc32)) q
          (On (Underway D a f (BitVec.ofNat 32 image.bytes.length) image.crc32)) :=
      Ensures.sends sends fun {_ payload} of => Underway.performs part of payload.property
    have stays {B Y : Type} {q : ExceptT Y (Semantics.Program transport BootClient) B}
        (sends : Sends (OfImage D (otherSlot a) image) q) :
        Ensures E D direct
          (On fun c w => Underway D a f (BitVec.ofNat 32 image.bytes.length) image.crc32 c w ∧
            Rolled D a (BitVec.ofNat 32 image.bytes.length) image.crc32 c w) q
          (On fun c w => Underway D a f (BitVec.ofNat 32 image.bytes.length) image.crc32 c w ∧
            Rolled D a (BitVec.ofNat 32 image.bytes.length) image.crc32 c w) :=
      Ensures.sends sends fun {_ payload} of => Rolled.performs part of payload.property
    have committed : Ensures E D direct
        (On (Underway D a f (BitVec.ofNat 32 image.bytes.length) image.crc32))
        (BootClient.commit (BitVec.ofNat 32 p.len) p.crc)
        (On fun c w => Underway D a f (BitVec.ofNat 32 image.bytes.length) image.crc32 c w ∧
          Rolled D a (BitVec.ofNat 32 image.bytes.length) image.crc32 c w) := by
      rw [at_len, at_crc]
      exact (Ensures.run (Rolled.commit part) retries).bind fun _ => stays (.pure _)
    -- up to COMMIT the update is underway; from there on it is rolled out as well
    exact (keeps erases).bind fun _ => (keeps writes).bind fun _ => committed.adapt.bind fun _ =>
      (stays verify_ofUpdate).bind fun _ => stays finish_ofUpdate

end

/-- An image that the host takes for the slot the device writes, and does not only plan. -/
structure Picked (D : Device) (source : Source) (opts : FlashOpts) (c : Core) (image : Image) : Prop where
  force : opts.force = true
  family : source.checkFamily (reported D c).chipFamily (reported D c).familyName = .ok ()
  chosen : source.forBase (reported D c).writeBase "device write" = .ok image
  plannable : Plannable (reported D c) image

theorem Picked.unique {source : Source} {opts : FlashOpts} {image image' : Image}
    (h : Picked D source opts c image) (h' : Picked D source opts c image') : image' = image :=
  Except.ok.inj (h'.chosen.symm.trans h.chosen)

theorem Greeted.underway {c₀ : Core} (greeted : Greeted D c₀ (.reset f) c w)
    (slot : c₀.writeSlot = otherSlot a) (gen : c₀.highestGen = highestOn D f)
    (old : c₀.recState ≠ .fresh) : Underway D a f len crc c w where
  sound := greeted.sound
  cycle := by
    rw [greeted.world]
    exact .start _ _ _ _
  roles := by
    rw [greeted.core]
    exact .before slot gen old

theorem flash_updates {source : Source} {opts : FlashOpts} {s s' : BootClient} {l l' : Link}
    {x : Except FlowError Unit} {es : List (Event transport)} {c₀ : Core} (part : OnPart E D)
    (quiet : l.Quiet) (start : On (Greeted D c₀ (.reset f)) l.server) (isSlot : IsSlot c₀.writeSlot)
    (slot : c₀.writeSlot = otherSlot a) (gen : c₀.highestGen = highestOn D f)
    (old : c₀.recState ≠ .fresh)
    (run : (Host.flash source opts).run.Exec (link E D direct) s l es x s' l') :
    (∀ e ∈ es, ∀ k, asked e = some k → k.1 = cmdHello ∨
      ∃ image, Picked D source opts c₀ image ∧ OfImage D (otherSlot a) image k) ∧
    (x = .ok () → opts.force = true → l'.Quiet ∧ ∃ image, Picked D source opts c₀ image ∧
      On (fun c w => Underway D a f (BitVec.ofNat 32 image.bytes.length) image.crc32 c w ∧
        Rolled D a (BitVec.ofNat 32 image.bytes.length) image.crc32 c w) l'.server) := by
  have opened : Triple E D direct False (·.1 ∈ [cmdHello]) (On (Greeted D c₀ (.reset f)))
      (Flow.plain BootClient.hello) fun info b =>
        On (fun c w => Greeted D c₀ (.reset f) c w ∧ c.s.session = true) b ∧ info.val = reported D c₀ :=
    greet_triple False.elim
  unfold Host.flash at run
  rcases exec_seq.mp run with ⟨_, rfl, failed⟩ | ⟨es₁, es₂, ⟨info, usable⟩, _, l₁, rfl, done, run⟩
  · have asks := (opened _ _ _ _ _ _ quiet start failed).1
    exact ⟨fun e mem k ask => .inl (List.mem_singleton.mp (asks e mem k ask)), nofun⟩
  obtain ⟨asks, ⟨_, same, quiet₁, greeted, at_info⟩ | ⟨_, fails, -⟩⟩ := opened _ _ _ _ _ _ quiet start done
  swap
  · cases fails
  obtain rfl := Except.ok.inj same
  obtain rfl : info = reported D c₀ := at_info
  -- the checks ask nothing, and nothing is asked once one of them has failed
  have hello : ∀ e ∈ es₁, ∀ k, asked e = some k → k.1 = cmdHello ∨
      ∃ image, Picked D source opts c₀ image ∧ OfImage D (otherSlot a) image k :=
    fun e mem k ask => .inl (List.mem_singleton.mp (asks e mem k ask))
  rcases check_exec run with ⟨rfl, _, rfl⟩ | ⟨_, family, run⟩
  · rw [List.append_nil]
    exact ⟨hello, nofun⟩
  rcases check_exec run with ⟨rfl, _, rfl⟩ | ⟨image, chosen, run⟩
  · rw [List.append_nil]
    exact ⟨hello, nofun⟩
  rcases check_exec run with ⟨rfl, _, rfl⟩ | ⟨p, planned, run⟩
  · rw [List.append_nil]
    exact ⟨hello, nofun⟩
  cases force : opts.force with
  | false =>
    rw [force] at run
    obtain ⟨rfl, -⟩ := exec_return.mp run
    rw [List.append_nil]
    exact ⟨hello, nofun⟩
  | true =>
    rw [force, if_neg (by decide)] at run
    have plannable := planFlash_isOk.mp ⟨p, planned⟩
    have picked : Picked D source opts c₀ image := ⟨force, family, chosen, plannable⟩
    have window := D.capacity_eq isSlot plannable.window
    have limit := recordAt_bound (D := D) isSlot
    obtain ⟨sends, ensures⟩ := executeFlash_updates f direct part planned rfl
      window.le (by omega) slot.symm
    constructor
    · intro e mem k ask
      rcases List.mem_append.mp mem with early | late
      · exact hello e early k ask
      · rw [← slot]
        exact .inr ⟨image, picked, sends.asks run e late k ask⟩
    · rintro rfl -
      obtain ⟨quiet', committed⟩ := ensures _ _ _ _ _ _ quiet₁ (greeted.1.underway slot gen old) run
      exact ⟨quiet', image, picked, committed⟩

theorem quiet_later {l l' : Link} (quiet : l.Quiet)
    (after : Relation.ReflTransGen (Duplex.Moves (medium E D)) l l') : l' = l := by
  induction after with
  | refl => rfl
  | tail _ step same =>
    obtain ⟨up, down⟩ := quiet
    rw [same] at step
    cases step with
    | lost => cases up
    | served => cases up
    | unheard => cases down

/-- A power cycle in which the host flashes once: how far it came, and what success means. -/
theorem flash_cycle {bootreq : Word} {source : Source} {opts : FlashOpts} {s s' : BootClient}
    {l' l'' : Link} {r : Except FlowError Unit} {es₀ : List (Event port)} {es : List (Event transport)}
    (part : OnPart E D) (bootable : selectOn D f ≠ slotNone)
    (up : (bootUp D).Exec (portEnv D) (.bss D bootreq) (.reset f) es₀ .ready c w)
    (run : (Host.flash source opts).run.Exec (link E D direct) s ⟨⟨c, w, false⟩, [], []⟩ es r s' l')
    (after : Relation.ReflTransGen (Duplex.Moves (medium E D)) l' l'') (cut : Cut D l'' g) :
    (∃ images : List Image, (∀ image ∈ images, Picked D source opts c image) ∧
      Cycle D (selectOn D f) f
        (images.map fun image => (BitVec.ofNat 32 image.bytes.length, image.crc32)) g) ∧
    (r = .ok () → opts.force = true → ∃ image record, Picked D source opts c image ∧
      recordOn D g (otherSlot (selectOn D f)) = some record ∧
      record.imgLen = BitVec.ofNat 32 image.bytes.length ∧ record.imgCrc32 = image.crc32 ∧
      (g.read32 (D.slotBase (otherSlot (selectOn D f))) ≠ erasedWord →
        selectOn D g = otherSlot (selectOn D f))) := by
  obtain ⟨rfl, bootreq', -, rfl⟩ := wp_exec (bootUp_wp D f bootreq) up
  have sound : Sound D false (.started D f bootreq') (.reset f) := sound_started D f bootreq'
  have slot : (Core.started D f bootreq').writeSlot = otherSlot (selectOn D f) := by
    simp only [Core.started, bootable, if_false]
  -- after a reset nothing is committed yet, so no COMMIT of this cycle is a replay
  have old : (Core.started D f bootreq').recState ≠ .fresh := by
    intro fresh
    cases fresh
  have known := (selectOn_isSlot D f).resolve_left bootable
  obtain ⟨asks, succeeds⟩ := flash_updates part ⟨rfl, rfl⟩ (Greeted.start sound) (slot ▸ known.other)
    slot rfl old run
  have hello {len crc : Word} (k : Byte × List Byte) (is : k.1 = cmdHello) :
      OfUpdate D (otherSlot (selectOn D f)) len crc k := by
    obtain ⟨cmd, pl⟩ := k
    obtain rfl : cmd = cmdHello := is
    exact .passive (by decide) (by decide)
  constructor
  -- the picked image is unique, so whatever was sent is of that one
  · by_cases chosen : ∃ image, Picked D source opts (.started D f bootreq') image
    · obtain ⟨image, picked⟩ := chosen
      have only : ∀ e ∈ es, ∀ k, asked e = some k → OfImage D (otherSlot (selectOn D f)) image k := by
        intro e mem k ask
        rcases asks e mem k ask with is | ⟨image', picked', of⟩
        · exact hello k is
        · obtain rfl := picked.unique picked'
          exact of
      exact ⟨[image], List.forall_mem_singleton.mpr picked,
        update_atomic part ⟨rfl, rfl⟩ (Underway.started bootable) only run after cut⟩
    -- nothing is committed
    · have only : ∀ e ∈ es, ∀ k, asked e = some k → OfUpdate D (otherSlot (selectOn D f)) 0 0 k := by
        intro e mem k ask
        rcases asks e mem k ask with is | ⟨image, picked, -⟩
        · exact hello k is
        · exact absurd ⟨image, picked⟩ chosen
      exact ⟨[], List.forall_mem_nil _,
        (update_atomic part ⟨rfl, rfl⟩ (Underway.started bootable) only run after cut).void⟩
  · intro fine force
    obtain ⟨quiet, image, picked, underway, rolled⟩ := succeeds fine force
    obtain rfl := quiet_later quiet after
    -- with the last answer in nothing is on the way: the cut falls between frames
    cases cut with
    | amid _ mem =>
      rw [quiet.1] at mem
      cases mem
    | between =>
      have fresh := underway.sound.fresh rolled.known.fresh
      obtain ⟨record, found, len, crc, selected⟩ := fresh.selected
      rw [fresh.roles, rolled.slot] at found selected
      rw [rolled.known.len] at len
      rw [rolled.known.crc] at crc
      refine ⟨image, record, picked, found, len, crc, fun nonblank => selected ?_⟩
      obtain ⟨isSlot, -, -, accepted⟩ := recordOn_some found
      refine (imageValidOn_iff isSlot accepted.geometry).mpr ⟨fun _ => ?_, nonblank⟩
      rw [len, crc]
      exact rolled.attests

/-- The flash flow on a device that has just come up, over a link that loses, delays and damages
    frames, on flash with any fault, at whatever instant power goes. The slot that was active
    is as it was, and the next reset selects it, or the other slot once that holds the
    complete record of the image the host chose, over content with its CRC. And if the flow
    has succeeded, that record stands, and unless the image begins with an erased word the
    next reset selects it. -/
theorem flash_atomic {bootreq : Word} {source : Source} {opts : FlashOpts} {s s' : BootClient}
    {l' l'' : Link} {r : Except FlowError Unit} {es₀ : List (Event port)} {es : List (Event transport)}
    (part : OnPart E D) (bootable : selectOn D f ≠ slotNone)
    (up : (bootUp D).Exec (portEnv D) (.bss D bootreq) (.reset f) es₀ .ready c w)
    (run : (Host.flash source opts).run.Exec (link E D direct) s ⟨⟨c, w, false⟩, [], []⟩ es r s' l')
    (after : Relation.ReflTransGen (Duplex.Moves (medium E D)) l' l'') (cut : Cut D l'' g) :
    (D.span (selectOn D f)).EqOn g f ∧
    (selectOn D g = selectOn D f ∨ selectOn D g = otherSlot (selectOn D f) ∧
      ∃ image, Picked D source opts c image ∧
        g.bytes (D.recordAt (otherSlot (selectOn D f))) bootRecordSize =
          (BootRecord.sealed (highestOn D f + 1) (BitVec.ofNat 32 image.bytes.length)
            image.crc32).bytes ∧
        Attests D g (otherSlot (selectOn D f)) (BitVec.ofNat 32 image.bytes.length) image.crc32) ∧
    (r = .ok () → opts.force = true → ∃ image record, Picked D source opts c image ∧
      recordOn D g (otherSlot (selectOn D f)) = some record ∧
      record.imgLen = BitVec.ofNat 32 image.bytes.length ∧ record.imgCrc32 = image.crc32 ∧
      (g.read32 (D.slotBase (otherSlot (selectOn D f))) ≠ erasedWord →
        selectOn D g = otherSlot (selectOn D f))) := by
  obtain ⟨⟨images, picked, cycle⟩, succeeds⟩ := flash_cycle part bootable up run after cut
  refine ⟨cycle.kept, ?_, succeeds⟩
  refine (cycle.select rfl bootable).imp id fun ⟨other, len, crc, mem, record, attests⟩ => ?_
  obtain ⟨image, among, tuple⟩ := List.mem_map.mp mem
  obtain ⟨rfl, rfl⟩ := Prod.mk.inj tuple
  exact ⟨other, image, picked image among, record, attests⟩

namespace Bench

/-- The simulated link, with the requests from some sequence number on still on the way when the
    host gives up. -/
def stalling (stuckAt : Nat) (l : Link) : (op : TransportOp) → op.Reply × Link
  | .xfer req timeoutMs =>
    if stuckAt ≤ req.seq.toNat then (.error .timeout, l.send req.encode)
    else lossy .ch570 everyFourth false l (.xfer req timeoutMs)
  | .holdsInBootloader => (false, l)

theorem stalling_sound (stuckAt : Nat) (l : Link) (op : TransportOp) :
    (link (faultFree .ch570 (simulatedView .ch570)) .ch570 false).step l op
      (stalling stuckAt l op).1 (stalling stuckAt l op).2 := by
  cases op with
  | holdsInBootloader => exact ⟨rfl, rfl⟩
  | xfer req timeoutMs =>
    by_cases stuck : stuckAt ≤ req.seq.toNat
    · simp only [stalling, if_pos stuck]
      exact ⟨none, .deadline, rfl⟩
    · simp only [stalling, if_neg stuck]
      exact lossy_sound .ch570 everyFourth false l (.xfer req timeoutMs)

def longBuild (slot : Word) : Image := ⟨Device.ch570.slotBase slot, longImage⟩

def flashLong (slot : Word) : Semantics.Program transport BootClient (Except FlowError Unit) :=
  (Host.flash (.single (longBuild slot)) (flashOpts true)).run

inductive Updates (slot : Word) (f : Flash) (es : List (Event transport))
    (r : Except FlowError Unit) (l : Link) : Prop where
  | mk {c : Core} {w : World} {s' : BootClient} {es₀ : List (Event port)} :
      (bootUp .ch570).Exec (portEnv .ch570) (.bss .ch570 bootreqMagic) (.reset f) es₀ .ready c w →
      (flashLong slot).Exec (link (faultFree .ch570 (simulatedView .ch570)) .ch570 false) ⟨0⟩
        ⟨⟨c, w, false⟩, [], []⟩ es r s' l →
      Updates slot f es r l

def update (stuckAt : Nat) (slot : Word) (f : Flash) :
    Option (List (Event transport) × Except FlowError Unit × BootClient × Link) :=
  (bench .ch570 unchecked f bootreqMagic []).map fun s =>
    (flashLong slot).run (stalling stuckAt) ⟨0⟩ ⟨⟨s.1, s.2, false⟩, [], []⟩

theorem updates_of_update {stuckAt : Nat} {slot : Word} {f : Flash}
    {test : List (Event transport) × Except FlowError Unit × BootClient × Link → Bool}
    (passes : (update stuckAt slot f).any test = true) :
    ∃ es r s' l, Updates slot f es r l ∧ test (es, r, s', l) = true := by
  obtain ⟨out, ran, tested⟩ := (Option.any_eq_true _ _).mp passes
  obtain ⟨⟨c, w⟩, reached, rfl⟩ := Option.map_eq_some_iff.mp ran
  have exec := carry_exec .ch570 (bootUp .ch570) (.bss .ch570 bootreqMagic) (.reset f)
  unfold bench at reached
  split at reached
  · next c₀ w₀ up =>
    rw [up] at exec
    obtain ⟨rfl, rfl⟩ := Prod.mk.inj (Option.some.inj reached)
    exact ⟨_, _, _, _, .mk exec (Program.exec_run (stalling_sound stuckAt) _ _ _), tested⟩
  · cases reached

/-- Flash when power goes in the first request on the way, at its flash call with this number, once
    some words of a page are written. -/
def torn (n words : Nat) (l : Link) : Option Flash :=
  match l.up with
  | [] => none
  | m :: _ =>
    match (serve .ch570 m).pause (simulate .ch570) n l.server.core l.server.world with
    | some ⟨.flashWrite addr data, _, _, w⟩ =>
      if l.server.booted then none else some (programBytes w.flash addr (data.take (4 * words)))
    | _ => none

theorem cut_of_torn {n words : Nat} {l : Link} {test : Flash → Bool}
    (passes : (torn n words l).any test = true) : ∃ g, Cut .ch570 l g ∧ test g = true := by
  obtain ⟨g, reached, tested⟩ := (Option.any_eq_true _ _).mp passes
  refine ⟨g, ?_, tested⟩
  unfold torn at reached
  split at reached
  · cases reached
  · next m up _ =>
    split at reached
    · next addr data k c w paused =>
      split at reached
      · cases reached
      · next on =>
        obtain rfl := Option.some.inj reached
        obtain ⟨ls, inner, run⟩ := run_of_pause (t := .frame m) paused
        have inner' : ∀ l ∈ ls ++ [Label.port (.flashWrite addr data) 1], l.Inner :=
          List.forall_mem_append.mpr ⟨inner, List.forall_mem_singleton.mpr trivial⟩
        have stopped := run.append (.one (.call (.writeFailed words (by decide : (1 : Word) ≠ 0))))
        exact .amid (Bool.eq_false_iff.mpr on) (by simp_all) (.inl rfl) (.mk inner' stopped)
    · cases reached

theorem updates_ok {stuckAt : Nat} {slot : Word} {f : Flash} {test : List (Event transport) → Link → Bool}
    (passes : (update stuckAt slot f).any (fun out => out.2.1.isOk && test out.1 out.2.2.2) = true) :
    ∃ es l, Updates slot f es (.ok ()) l ∧ test es l = true := by
  obtain ⟨es, r, s', l, updates, tested⟩ := updates_of_update passes
  obtain ⟨fine, tested⟩ := (Bool.and_eq_true _ _).mp tested
  cases r with
  | error => cases fine
  | ok => exact ⟨es, l, updates, tested⟩

abbrev TornRecord (slot generation : Word) (g : Flash) : Prop :=
  let record := BootRecord.sealed generation (BitVec.ofNat 32 longImage.length) (crc32 longImage)
  g.bytes (Device.ch570.recordAt slot) bootRecordSize =
    record.bytes.take 12 ++ blank.bytes (Device.ch570.recordAt slot + 12) 20

/-- The host asks for a COMMIT that is served only when it has given up, and power goes as the
    record is written. -/
theorem updates_torn {slot generation : Word} {f : Flash} {test : Flash → Bool}
    (passes : (update 6 slot f).any (fun out => !out.2.1.isOk && (torn 1 3 out.2.2.2).any fun g =>
      decide (TornRecord slot generation g) && test g) = true) :
    ∃ es e l g, Updates slot f es (.error e) l ∧ Cut .ch570 l g ∧ TornRecord slot generation g ∧
      test g = true := by
  obtain ⟨es, r, s', l, updates, ends⟩ := updates_of_update passes
  obtain ⟨failed, stops⟩ := (Bool.and_eq_true _ _).mp ends
  obtain ⟨g, cut, tested⟩ := cut_of_torn stops
  obtain ⟨torn, rest⟩ := (Bool.and_eq_true _ _).mp tested
  cases r with
  | ok => cases failed
  | error e => exact ⟨es, e, l, g, updates, cut, of_decide_eq_true torn, rest⟩

end Bench

/-- From the factory's slot A, slot B is flashed with every fourth answer lost, and is selected; or
    power goes as the record is written, and slot A stays. -/
theorem flash_atomic_lossy :
    (∃ es l, (∃ e ∈ es, ¬ Completed e) ∧
      Bench.Updates slotB (Bench.factory .ch570 Bench.image) es (.ok ()) l ∧
      selectOn .ch570 l.server.world.flash = slotB ∧
      (Device.ch570.span slotA).EqOn l.server.world.flash (Bench.factory .ch570 Bench.image)) ∧
    ∃ es e l g, Bench.Updates slotB (Bench.factory .ch570 Bench.image) es (.error e) l ∧
      Cut .ch570 l g ∧ Bench.TornRecord slotB 2 g ∧ selectOn .ch570 g = slotA ∧
      (Device.ch570.span slotA).EqOn g (Bench.factory .ch570 Bench.image) := by
  have active : selectOn .ch570 (Bench.factory .ch570 Bench.image) = slotA := by decide +kernel
  have bootable : selectOn .ch570 (Bench.factory .ch570 Bench.image) ≠ slotNone := by
    rw [active]
    decide
  constructor
  -- an update that goes through, some answers lost
  · obtain ⟨es, l, updates, tested⟩ := @Bench.updates_ok 256 slotB
      (Bench.factory .ch570 Bench.image) (fun es l => decide (∃ e ∈ es, ¬ Completed e) &&
        decide (l.server.world.flash.read32 (Device.ch570.slotBase slotB) ≠ erasedWord))
      (by decide +kernel)
    simp only [Bool.and_eq_true, decide_eq_true_eq] at tested
    obtain ⟨up, run⟩ := id updates
    obtain ⟨kept, -, succeeds⟩ := flash_atomic faultFree_onPart bootable up run .refl .between
    obtain ⟨-, -, -, -, -, -, selected⟩ := succeeds rfl rfl
    rw [active] at kept selected
    exact ⟨es, l, tested.1, updates, selected tested.2, kept⟩
  -- one that is cut amid its record, while the COMMIT is being served
  · obtain ⟨es, e, l, g, updates, cut, torn, other⟩ := @Bench.updates_torn slotB 2
      (Bench.factory .ch570 Bench.image) (fun g => decide (selectOn .ch570 g ≠ slotB))
      (by decide +kernel)
    obtain ⟨up, run⟩ := id updates
    obtain ⟨kept, selected, -⟩ := flash_atomic faultFree_onPart bootable up run .refl cut
    rw [active] at kept selected
    have selected := selected.resolve_right fun h => of_decide_eq_true other h.1
    exact ⟨es, e, l, g, updates, cut, torn, selected, kept⟩

/-! ### Any number of updates -/

/-- The slot holds the image under its record. -/
structure Stands (D : Device) (g : Flash) (slot : Word) (image : Image) : Prop where
  record : ∃ r, recordOn D g slot = some r ∧ r.imgLen = BitVec.ofNat 32 image.bytes.length ∧
    r.imgCrc32 = image.crc32
  attests : Attests D g slot (BitVec.ofNat 32 image.bytes.length) image.crc32

theorem Stands.congr {image : Image} (h : Stands D f slot image) (same : (D.span slot).EqOn g f) :
    Stands D g slot image := by
  obtain ⟨⟨r, found, len, crc⟩, attests⟩ := h
  obtain ⟨isSlot, -, -, accepted⟩ := recordOn_some found
  refine ⟨⟨r, (recordOn_congr same).trans found, len, crc⟩, ?_⟩
  unfold Attests at attests ⊢
  rw [← len, bytes_congr_slot same isSlot accepted.geometry, len]
  exact attests

/-- The slot that is selected after a power cycle, if it is not the one from before, stands on an
    image committed in that cycle. -/
theorem Cycle.stands {images : List Image} (bootable : selectOn D f ≠ slotNone)
    (h : Cycle D (selectOn D f) f
      (images.map fun image => (BitVec.ofNat 32 image.bytes.length, image.crc32)) g) :
    selectOn D g = selectOn D f ∨ selectOn D g = otherSlot (selectOn D f) ∧
      ∃ image ∈ images, Stands D g (selectOn D g) image := by
  refine (h.select rfl bootable).imp id fun ⟨other, len, crc, mem, record, attests⟩ => ⟨other, ?_⟩
  obtain ⟨image, among, tuple⟩ := List.mem_map.mp mem
  obtain ⟨rfl, rfl⟩ := Prod.mk.inj tuple
  have known := (selectOn_isSlot D f).resolve_left bootable
  obtain ⟨r, found, -⟩ := selectOn_bootable (D := D) (f := g)
    (other ▸ known.other.ne_none)
  rw [other] at found
  refine ⟨image, among, ⟨r, other ▸ found, ?_⟩, other ▸ attests⟩
  obtain ⟨-, -, rfl, -⟩ := recordOn_some found
  rw [record, BootRecord.ofBytes_bytes BootRecord.sealed_rsvd_length]
  exact ⟨rfl, rfl⟩

/-- Power cycles, one after the other, in each of which the host flashes one of these sources and
    power goes at some instant. -/
inductive Campaign (E : Environment port World) (D : Device) (direct : Bool) (f : Flash) :
    List Source → Flash → Prop where
  | start : Campaign E D direct f [] f
  | flash {sources : List Source} {source : Source} {bootreq : Word} {opts : FlashOpts}
      {s s' : BootClient} {l' l'' : Link} {c : Core} {w : World} {r : Except FlowError Unit}
      {es₀ : List (Event port)} {es : List (Event transport)} {g h : Flash} :
      Campaign E D direct f sources g →
      (bootUp D).Exec (portEnv D) (.bss D bootreq) (.reset g) es₀ .ready c w →
      (Host.flash source opts).run.Exec (link E D direct) s ⟨⟨c, w, false⟩, [], []⟩ es r s' l' →
      Relation.ReflTransGen (Duplex.Moves (medium E D)) l' l'' → Cut D l'' h →
      Campaign E D direct f (source :: sources) h

theorem up_writeSlot {bootreq : Word} (bootable : selectOn D f ≠ slotNone)
    (up : (bootUp D).Exec (portEnv D) (.bss D bootreq) (.reset f) es .ready c w) :
    c.writeSlot = otherSlot (selectOn D f) := by
  obtain ⟨-, bootreq', -, rfl⟩ := wp_exec (bootUp_wp D f bootreq) up
  simp only [Core.started, bootable, if_false]

/-- However many updates follow each other, and however each of them ends, a device that can boot
    can boot: what the next reset selects is as it was at first, or is the image that one of
    the sources has for that slot, under its record and with its CRC. -/
theorem campaign_boots {sources : List Source} (part : OnPart E D)
    (bootable : selectOn D f ≠ slotNone) (campaign : Campaign E D direct f sources g) :
    selectOn D g ≠ slotNone ∧ ((D.span (selectOn D g)).EqOn g f ∨
      ∃ source ∈ sources, ∃ image,
        source.forBase (D.slotBase (selectOn D g)) "device write" = .ok image ∧
        image.base = D.slotBase (selectOn D g) ∧ Stands D g (selectOn D g) image) := by
  induction campaign with
  | start => exact ⟨bootable, .inl (Set.eqOn_refl _ _)⟩
  | @flash sources source bootreq opts s s' l' l'' c w r es₀ es g h _ up run after cut ih =>
    obtain ⟨able, holds⟩ := ih
    obtain ⟨images, picked, cycle⟩ := (flash_cycle part able up run after cut).1
    have known := (selectOn_isSlot D g).resolve_left able
    rcases cycle.stands able with same | ⟨other, image, among, stands⟩
    · rw [same]
      refine ⟨able, holds.imp cycle.kept.trans ?_⟩
      rintro ⟨source', mem, image, chosen, base, stands⟩
      exact ⟨source', List.mem_cons_of_mem _ mem, image, chosen, base, stands.congr cycle.kept⟩
    · have pick := picked image among
      have base : (reported D c).writeBase = D.slotBase (selectOn D h) := by
        rw [other, ← up_writeSlot able up]
        rfl
      rw [← base]
      exact ⟨other ▸ known.other.ne_none,
        .inr ⟨source, List.mem_cons_self, image, pick.chosen, pick.plannable.base, stands⟩⟩

theorem Bench.Updates.campaign {sources : List Source} {slot : Word} {f₀ : Flash}
    {es : List (Event transport)} {r : Except FlowError Unit} {l : Link}
    (h : Bench.Updates slot f es r l)
    (campaign : Campaign (faultFree .ch570 (simulatedView .ch570)) .ch570 false f₀ sources f)
    (cut : Cut .ch570 l g) :
    Campaign (faultFree .ch570 (simulatedView .ch570)) .ch570 false f₀
      (.single (Bench.longBuild slot) :: sources) g := by
  obtain ⟨up, run⟩ := h
  exact campaign.flash up run .refl cut

/-- Slot A is flashed until power goes as the record is written, and then once more. -/
def Bench.again (f : Flash) : Bool :=
  (update 6 slotA f).any fun out => !out.2.1.isOk && (torn 1 3 out.2.2.2).any fun g =>
    decide (TornRecord slotA 3 g) && (update 256 slotA g).any fun out => out.2.1.isOk &&
      decide (selectOn .ch570 out.2.2.2.server.world.flash = slotA ∧
        out.2.2.2.server.world.flash.bytes (Device.ch570.base slotA) 4 ≠ image)

theorem Bench.updates_again (passes : Bench.again f = true) : ∃ es e l g es' l',
    Bench.Updates slotA f es (.error e) l ∧ Cut .ch570 l g ∧ Bench.TornRecord slotA 3 g ∧
    Bench.Updates slotA g es' (.ok ()) l' ∧ selectOn .ch570 l'.server.world.flash = slotA ∧
    l'.server.world.flash.bytes (Device.ch570.base slotA) 4 ≠ Bench.image := by
  unfold Bench.again at passes
  obtain ⟨es, e, l, g, updates, cut, torn, passes⟩ := Bench.updates_torn passes
  obtain ⟨es', l', updates', tested⟩ := @Bench.updates_ok 256 slotA g (fun _ l =>
    decide (selectOn .ch570 l.server.world.flash = slotA ∧
      l.server.world.flash.bytes (Device.ch570.base slotA) 4 ≠ Bench.image)) passes
  exact ⟨es, e, l, g, es', l', updates, cut, torn, updates', of_decide_eq_true tested⟩

/-- From the factory's slot A the host flashes slot B, then slot A until power goes as the record is
    written, then slot A once more. -/
theorem campaign_boots_update : ∃ es₁ l₁ es₂ e₂ l₂ g es₃ l₃,
    Bench.Updates slotB (Bench.factory .ch570 Bench.image) es₁ (.ok ()) l₁ ∧
    Bench.Updates slotA l₁.server.world.flash es₂ (.error e₂) l₂ ∧
    Cut .ch570 l₂ g ∧ Bench.TornRecord slotA 3 g ∧
    Bench.Updates slotA g es₃ (.ok ()) l₃ ∧
    selectOn .ch570 l₃.server.world.flash = slotA ∧
    Stands .ch570 l₃.server.world.flash slotA (Bench.longBuild slotA) := by
  have active : selectOn .ch570 (Bench.factory .ch570 Bench.image) = slotA := by decide +kernel
  have old : (Bench.factory .ch570 Bench.image).bytes (Device.ch570.base slotA) 4 = Bench.image := by
    decide +kernel
  have passes : (Bench.update 256 slotB (Bench.factory .ch570 Bench.image)).any (fun out =>
      out.2.1.isOk && Bench.again out.2.2.2.server.world.flash) = true := by decide +kernel
  obtain ⟨es₁, l₁, first, passes⟩ := @Bench.updates_ok 256 slotB (Bench.factory .ch570 Bench.image)
    (fun _ l => Bench.again l.server.world.flash) passes
  obtain ⟨es₂, e₂, l₂, g, es₃, l₃, second, cut, torn, third, selected, written⟩ :=
    Bench.updates_again passes
  have campaign := third.campaign (second.campaign (first.campaign .start .between) cut) .between
  obtain ⟨-, holds⟩ := campaign_boots faultFree_onPart (by rw [active]; decide) campaign
  refine ⟨es₁, l₁, es₂, e₂, l₂, g, es₃, l₃, first, second, cut, torn, third, selected, ?_⟩
  rw [selected] at holds
  -- slot A holds the old image no more, so the theorem leaves the new one
  rcases holds with kept | ⟨source, mem, image, chosen, base, stands⟩
  · have four : Set.Ico (Device.ch570.base slotA) (Device.ch570.base slotA + 4) ⊆
      Device.ch570.span slotA := Set.Ico_subset_Ico_right (by decide)
    exact absurd ((Flash.bytes_congr (kept.mono four)).trans old) written
  · have single : ∃ slot, source = .single (Bench.longBuild slot) := by
      simp only [List.mem_cons, List.not_mem_nil, or_false] at mem
      rcases mem with rfl | rfl | rfl
      · exact ⟨_, rfl⟩
      · exact ⟨_, rfl⟩
      · exact ⟨_, rfl⟩
    obtain ⟨slot, rfl⟩ := single
    obtain rfl := Except.ok.inj chosen
    have same : Bench.longBuild slot = Bench.longBuild slotA :=
      congrArg (fun b => (⟨b, Bench.longImage⟩ : Image)) base
    exact same ▸ stands

end OpenBoot
