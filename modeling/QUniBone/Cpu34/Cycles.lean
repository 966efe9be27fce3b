import QUniBone.Cpu34.Step

/-!
# How a bus cycle can go

`dati()` and `dato()` each end in one of five ways, and a write answered inside the processor
in one of four. Every fact about a cycle is a case analysis on these.
-/

namespace QUniBone

open Prog

namespace Kd11ea

/-- The ways a `dati()` ends. -/
inductive Dati (bus : Bus) (byte : Bool) (m : Machine) :
    EStateM.Result Unit Machine Unit → Prop
  | odd : byte = false → m.cpu.ba.odd = true → Dati bus byte m (.error () (m.cycleFailed 4))
  | aborted : m.physical .read = none →
      Dati bus byte m (.error () ((m.translated .read).cycleFailed Kt11d.abortVector))
  | internal {pa : UInt} {w : Word} : m.physical .read = some pa →
      (m.translated .read).cpu.readInternal pa = some w →
      Dati bus byte m (.ok ()
        ((((m.translated .read).mapCpu ({ · with bdata := w })).note (.internalRef pa)).cycleOk))
  | answered {pa : UInt} {d : Word} : m.physical .read = some pa →
      (m.translated .read).cpu.readInternal pa = none →
      bus.dati m.bus (pa &&& ~~~1) = some d →
      Dati bus byte m (.ok ()
        ((((m.translated .read).onBus (.dati (pa &&& ~~~1) (some d))).mapCpu
          ({ · with bdata := d })).cycleOk))
  | timeout {pa : UInt} : m.physical .read = some pa →
      (m.translated .read).cpu.readInternal pa = none →
      bus.dati m.bus (pa &&& ~~~1) = none →
      Dati bus byte m (.error ()
        (((m.translated .read).onBus (.dati (pa &&& ~~~1) none)).cycleFailed 4))

/-- The ways a `dato()` ends. -/
inductive Dato (bus : Bus) (byte : Bool) (m : Machine) :
    EStateM.Result Unit Machine Unit → Prop
  | odd : byte = false → m.cpu.ba.odd = true → Dato bus byte m (.error () (m.cycleFailed 4))
  | aborted : m.physical .write = none →
      Dato bus byte m (.error () ((m.translated .write).cycleFailed Kt11d.abortVector))
  | internal {pa : UInt} {m' : Machine} : m.physical .write = some pa →
      (m.translated .write).writeInternal pa byte = some m' →
      Dato bus byte m (.ok () ((m'.note (.internalRef pa)).cycleOk))
  | acknowledged {pa : UInt} : m.physical .write = some pa →
      (m.translated .write).writeInternal pa byte = none →
      writeAnswer bus byte m.bus pa m.cpu.bdata = true →
      Dato bus byte m (.ok ()
        ((m.translated .write).onBus (writeEvent byte pa m.cpu.bdata true)).cycleOk)
  | timeout {pa : UInt} : m.physical .write = some pa →
      (m.translated .write).writeInternal pa byte = none →
      writeAnswer bus byte m.bus pa m.cpu.bdata = false →
      Dato bus byte m (.error ()
        (((m.translated .write).onBus (writeEvent byte pa m.cpu.bdata false)).cycleFailed 4))

/-- The ways a write is answered inside the processor. -/
inductive InternalWrite (m : Machine) (pa : UInt) (byte : Bool) : Machine → Prop
  | mmr0 {mmu : Kt11d} :
      m.cpu.mmu.writeReg 0o777572 m.cpu.bdata (Machine.byteMask byte pa) = some mmu →
      InternalWrite m pa byte
        ((m.mapCpu fun cpu => { cpu with mmu := mmu }).note (.mmr0Write mmu.mmr0))
  | register {mmu : Kt11d} : pa &&& ~~~1 ≠ 0o777572 →
      m.cpu.mmu.writeReg (pa &&& ~~~1) m.cpu.bdata (Machine.byteMask byte pa) = some mmu →
      InternalWrite m pa byte (m.mapCpu fun cpu => { cpu with mmu := mmu })
  | switches : pa = 0o777570 ∨ pa = 0o777571 → InternalWrite m pa byte m
  | psw : pa = 0o777776 ∨ pa = 0o777777 →
      InternalWrite m pa byte (m.setPsw
        (Word.setmask m.cpu.psw m.cpu.bdata (Machine.byteMask byte pa &&& ~~~pswT)))

theorem translated_cpu (m : Machine) (access : Access) :
    (m.translated access).cpu = { m.cpu with
      mmu := (m.cpu.mmu.relocate m.cpu.ba m.cpu.mmu.accessSpace access).1 } := by
  unfold Machine.translated
  dsimp only
  split <;> rfl

/-- A translation is not seen on the bus. -/
theorem translated_bus (m : Machine) (access : Access) : (m.translated access).bus = m.bus := by
  unfold Machine.translated
  dsimp only
  split <;> rfl

theorem dati_spec (bus : Bus) (byte : Bool) (m : Machine) :
    Dati bus byte m (dati bus byte m) := by
  unfold dati
  split
  case isTrue hodd => exact .odd hodd.1 hodd.2
  case isFalse =>
    dsimp only
    split
    case h_1 hres => exact .aborted hres
    case h_2 pa hres =>
      split
      case h_1 w hint => exact .internal hres hint
      case h_2 hint =>
        split
        case h_1 d hbus => exact .answered hres hint hbus
        case h_2 hbus => exact .timeout hres hint hbus

theorem dato_spec (bus : Bus) (byte : Bool) (m : Machine) :
    Dato bus byte m (dato bus byte m) := by
  unfold dato
  split
  case isTrue hodd => exact .odd hodd.1 hodd.2
  case isFalse =>
    dsimp only
    split
    case h_1 hres => exact .aborted hres
    case h_2 pa hres =>
      split
      case h_1 m' hint => exact .internal hres hint
      case h_2 hint =>
        split
        case h_1 hbus => exact .acknowledged hres hint hbus
        case h_2 hbus => exact .timeout hres hint hbus

theorem writeInternal_spec {m m' : Machine} {pa : UInt} {byte : Bool}
    (h : m.writeInternal pa byte = some m') : InternalWrite m pa byte m' := by
  unfold Machine.writeInternal at h
  split at h
  · cases h
  · cases hreg : m.cpu.mmu.writeReg (pa &&& ~~~1) m.cpu.bdata (Machine.byteMask byte pa) with
    | some mmu =>
        simp only [hreg, Option.some.injEq] at h
        split at h
        case isTrue hmmr0 =>
          rw [hmmr0] at hreg
          exact h ▸ .mmr0 hreg
        case isFalse hmmr0 => exact h ▸ .register hmmr0 hreg
    | none =>
        simp only [hreg] at h
        split_ifs at h with hsw hpsw
        · cases h
          exact .switches hsw
        · cases h
          exact .psw hpsw

end Kd11ea

end QUniBone
