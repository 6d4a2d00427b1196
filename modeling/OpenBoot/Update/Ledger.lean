import OpenBoot.Update.Updater

/-! The frames of a power cycle, read off the labels of a run: what came, which port
events it caused and what went out. Between frames the machine is where serving
these frames one after another leads. -/

set_option autoImplicit false

namespace OpenBoot

open Semantics Program

structure Served where
  buf : List Byte
  es : List (Event port)
  resp : List Byte

structure Ledger where
  done : List Served
  /-- The frame being served and its events so far. -/
  current : Option (List Byte × List (Event port))

def Ledger.note (h : Ledger) : Label → Ledger
  | .reset => ⟨[], none⟩
  | .recv buf => { h with current := some (buf, []) }
  | .ram => h
  | .port op x => { h with current := h.current.map fun (buf, es) => (buf, es ++ [⟨op, x⟩]) }
  | .out (.answered resp _) =>
    match h.current with
    | some (buf, es) => ⟨h.done ++ [⟨buf, es, resp⟩], none⟩
    | none => h
  | .out _ => h

def ledger (ls : List Label) : Ledger := ls.foldl Ledger.note ⟨[], none⟩

def served (ls : List Label) : List Served := (ledger ls).done

theorem ledger_snoc (ls : List Label) (l : Label) :
    ledger (ls ++ [l]) = (ledger ls).note l := by
  unfold ledger
  rw [List.foldl_append]
  rfl

/-- Serving frames from power-up, as long as none asks for a reset. -/
inductive Frames (D : Device) : List Served → Core → World → Prop where
  | start (f : Flash) (bootreq : Word) : Frames D [] (.started D f bootreq) (.reset f)
  | serve {log : List Served} {c c' : Core} {w w' : World} {buf resp : List Byte}
      {es : List (Event port)} : Frames D log c w →
      (handleFrame D buf).Exec (portEnv D) c w es (resp, .none) c' w' →
      Frames D (log ++ [⟨buf, es, resp⟩]) c' w'

variable {D : Device} {f : Flash} {ls : List Label} {c : Core} {w : World}

def Ledger.extend (h : Ledger) (es₁ : List (Event port)) : Ledger :=
  { h with current := h.current.map fun (buf, es) => (buf, es ++ es₁) }

@[simp] theorem Ledger.extend_nil (h : Ledger) : h.extend [] = h := by
  simp [Ledger.extend]

/-- Whatever completes the work at hand completes it from its beginning. -/
def Config.Pursues (D : Device) (h : Ledger) : Config → Prop
  | .off _ => True
  | .busy .boot p c w => h = ⟨[], none⟩ ∧ ∃ f bootreq es, ∀ es' o c' w',
      p.Exec (portEnv D) c w es' o c' w' →
      (bootUp D).Exec (portEnv D) (.bss D bootreq) (.reset f) (es ++ es') o c' w'
  | .busy (.frame buf) p c w => ∃ es c₀ w₀, h.current = some (buf, es) ∧ Frames D h.done c₀ w₀ ∧
      ∀ es' o c' w', p.Exec (portEnv D) c w es' o c' w' →
        (serve D buf).Exec (portEnv D) c₀ w₀ (es ++ es') o c' w'
  | .idle c w => Frames D h.done c w

theorem Config.Pursues.next {h : Ledger} {t : Task} {p p' : Code Outcome} {c₁ c₂ : Core}
    {w₁ w₂ : World} (es₁ : List (Event port)) (pursues : (Config.busy t p c₁ w₁).Pursues D h)
    (step : ∀ es' o c' w', p'.Exec (portEnv D) c₂ w₂ es' o c' w' →
      p.Exec (portEnv D) c₁ w₁ (es₁ ++ es') o c' w') :
    (Config.busy t p' c₂ w₂).Pursues D (h.extend es₁) := by
  cases t with
  | boot =>
    obtain ⟨rfl, f, bootreq, es, complete⟩ := pursues
    refine ⟨rfl, f, bootreq, es ++ es₁, fun es' o c' w' run => ?_⟩
    rw [List.append_assoc]
    exact complete _ _ _ _ (step _ _ _ _ run)
  | frame buf =>
    obtain ⟨es, c₀, w₀, at_buf, frames, complete⟩ := pursues
    refine ⟨es ++ es₁, c₀, w₀, ?_, frames, fun es' o c' w' run => ?_⟩
    · simp [Ledger.extend, at_buf]
    · rw [List.append_assoc]
      exact complete _ _ _ _ (step _ _ _ _ run)

/-- Every run pursues its frames. -/
theorem run_pursues {cfg : Config} (run : (machine D).Run (.off f) ls cfg) :
    cfg.Pursues D (ledger ls) := by
  apply run.invariant (fun ls cfg => cfg.Pursues D (ledger ls)) trivial
  intro ls cfg l cfg' pursues step
  rw [ledger_snoc]
  -- a step inside a frame adds to what the frame has done; its end closes the entry
  cases step with
  | reset bootreq => exact ⟨rfl, _, bootreq, [], fun _ _ _ _ run => run⟩
  | recv buf => exact ⟨[], _, _, rfl, pursues, fun _ _ _ _ run => run⟩
  | load =>
    have next := pursues.next [] fun _ _ _ _ run => .load run
    rwa [Ledger.extend_nil] at next
  | store =>
    have next := pursues.next [] fun _ _ _ _ run => .store run
    rwa [Ledger.extend_nil] at next
  | @call _ op _ _ _ _ x port =>
    exact pursues.next [⟨op, x⟩] fun _ _ _ _ run => .call port run
  | @out t o c w =>
    cases t with
    | boot =>
      obtain ⟨start, f, bootreq, es, complete⟩ := pursues
      obtain ⟨rfl, ending⟩ := wp_exec (bootUp_wp D f bootreq) (complete _ _ _ _ .done)
      rw [start]
      cases o with
      | launched base => trivial
      | ready =>
        obtain ⟨bootreq, -, rfl⟩ := ending
        exact .start f bootreq
      | answered resp act => exact ending.elim
    | frame buf =>
      obtain ⟨es, c₀, w₀, at_buf, frames, complete⟩ := pursues
      have run := complete _ _ _ _ .done
      unfold serve at run
      obtain ⟨es₁, es₂, ⟨resp, act⟩, c₁, w₁, split, handled, rest⟩ := exec_bind.mp run
      obtain ⟨rfl, rfl, rfl, rfl⟩ := exec_pure.mp rest
      rw [List.append_nil, List.append_nil] at split
      subst split
      cases act with
      | none =>
        simp only [Ledger.note, at_buf]
        exact .serve frames handled
      | reset => trivial

theorem frames_of_run (run : (machine D).Run (.off f) ls (.idle c w)) :
    Frames D (served ls) c w := run_pursues run

/-- The invariant rule for frames served in turn. -/
theorem Frames.invariant {log : List Served} (frames : Frames D log c w)
    (K : List Served → Core → World → Prop)
    (init : ∀ f bootreq, K [] (.started D f bootreq) (.reset f))
    (keep : ∀ log c w buf es resp c' w', Frames D log c w → K log c w →
      (handleFrame D buf).Exec (portEnv D) c w es (resp, .none) c' w' →
      K (log ++ [⟨buf, es, resp⟩]) c' w') : K log c w := by
  induction frames with
  | start f bootreq => exact init f bootreq
  | serve frames run ih => exact keep _ _ _ _ _ _ _ _ frames ih run

theorem handleFrame_keeps {buf resp : List Byte} {act : Action} {es : List (Event port)}
    {c' : Core} {w' : World} {J : Core → World → Prop} (sound : Sound D false c w)
    (ram : ∀ c₁ c₂ w₁, RamStep D buf c w w₁ c₁ c₂ → J c₁ w₁ → J c₂ w₁)
    (port : ∀ c₁ w₁ (op : PortOp) (x : Word) w₂, Permit D buf c w c₁ w₁ op →
      PortStep D w₁ op x w₂ → J c₁ w₁ → J c₁ w₂)
    (run : (handleFrame D buf).Exec (portEnv D) c w es (resp, act) c' w') (start : J c w) :
    J c' w' :=
  wp_exec_keeps (J := J) (fun w₁ c₁ c₂ step h => ram c₁ c₂ w₁ step h) port
    (handleFrame_wp sound) run start

theorem Sound.frame {buf resp : List Byte} {es : List (Event port)} {c' : Core} {w' : World}
    (sound : Sound D false c w)
    (run : (handleFrame D buf).Exec (portEnv D) c w es (resp, .none) c' w') :
    Sound D false c' w' := by
  have kept := handleFrame_keeps (J := Sound D (commitOf buf).isSome) sound
    (fun _ _ _ step h => h.ram step) (fun _ _ _ _ _ permit step h => h.permit permit step) run
    sound.weaken
  exact (wp_exec (handleFrame_wp sound) run).sound sound kept

theorem session_lasts {buf resp : List Byte} {act : Action} {es : List (Event port)} {c' : Core}
    {w' : World} (sound : Sound D false c w) (session : c.s.session = true)
    (run : (handleFrame D buf).Exec (portEnv D) c w es (resp, act) c' w') :
    c'.s.session = true := by
  refine handleFrame_keeps (J := fun c _ => c.s.session = true) sound ?_
    (fun _ _ _ _ _ _ _ h => h) run session
  intro c₁ c₂ w₁ step open_
  cases step with
  | opened => rfl
  | _ => exact open_

theorem Frames.sound {log : List Served} (frames : Frames D log c w) : Sound D false c w := by
  induction frames with
  | start f bootreq => exact sound_started D f bootreq
  | serve frames run ih => exact ih.frame run

end OpenBoot
