/-
  Elogind.Login.DecomposeSession

  The functions of sessions, users and the garbage collector, taken apart into
  elementary changes.
-/

import Elogind.Login.Decompose

namespace Elogind

open Function Lib Manager

section Functions

variable {P : ChangeKind → Prop} {D : Option Ref} {m : Manager}

/-! ## Users and leaders -/

theorem does_updateTimer (haccount : P .account) (env : Env) (u : Ref) :
    Does P D m (m.userUpdateLastSessionTimer env u) := by
  have hput : ∀ (l : Option Nat) (timer : Bool), Does P D m (m.userPutTimer u l timer) :=
    fun l timer => .one (.setLastSession u l timer) haccount
  unfold userUpdateLastSessionTimer
  split
  · exact hput _ _
  · split
    · exact .refl m
    · split <;> exact hput _ _

theorem does_electDisplay (haccount : P .account) (hw : Wf D m) (u : Ref) :
    Does P D m (m.userElectDisplay u) := by
  -- the loop is over the sessions of the user, which stay its sessions
  have hloop : ∀ (l : List Ref) (m : Manager), (∀ s ∈ l, m.session.user s = some u) →
      Does P D m (l.foldl (electDisplay u) m) := by
    intro l
    induction l with
    | nil => exact fun m _ => .refl m
    | cons s l ih =>
      intro m hl
      have hstep : Does P D m (m.electDisplay u s) := by
        unfold electDisplay
        split
        · exact .one (.setDisplay (hl s (by simp))) haccount
        · exact .refl m
      have hsame : (m.electDisplay u s).session = m.session := by
        unfold electDisplay
        split <;> rfl
      refine hstep.trans (ih _ ?_)
      intro i hi
      rw [hsame]
      exact hl i (by simp [hi])
  exact hloop _ m fun s hs => (hw.userSessions.mem_iff u s).mp hs

theorem resetLeader_leader (m : Manager) (s : Ref) :
    (m.sessionResetLeader s).session.leader s = none := by
  unfold sessionResetLeader
  split
  · assumption
  · exact update_self ..

/-! ## The life of a session -/

theorem does_retire (hP : P .plain) (s : Ref) : Does P D m (m.sessionRetire s) :=
  .one (.retire s) hP

theorem does_sessionStop (hP : P .plain) (haccount : P .account) (hw : Wf D m) (s : Ref) :
    Does P D m (m.sessionStop s) := by
  unfold sessionStop
  split
  · exact .refl m
  · next u _ =>
    split
    · exact .refl m
    · have hretire := does_retire (P := P) (D := D) (m := m) hP s
      have hfifo : Does P D m ((m.sessionRetire s).sessionPutFifo s false) :=
        hretire.trans (.quiet hP rfl)
      have hstop := hfifo.trans (.one (.setStopping s) haccount)
      exact hstop.trans (does_electDisplay haccount (hstop.wf hw) u)

theorem does_sessionFinalize (hP : P .plain) (haccount : P .account) (hw : Wf D m) (env : Env) (s : Ref) :
    Does P D m (m.sessionFinalize env s) := by
  unfold sessionFinalize
  split
  · exact .refl m
  · next u hu =>
    obtain ⟨hlive, hulive⟩ := hw.ownedLive hu
    have hretire := does_retire (P := P) (D := D) (m := m) hP s
    have hfree := hretire.trans (does_freeDevices hP (hretire.wf hw) s)
    -- nothing so far has changed which objects there are
    have hobj : ((m.sessionRetire s).sessionFreeDevices s).objects = m.objects :=
      (objects_of_withoutSds (withoutSds_freeDevices s)).trans
        (objects_of_links (links_retire m s))
    have hs : ((m.sessionRetire s).sessionFreeDevices s).session.live s :=
      (congrFun (congrArg Objects.sessionLive hobj) s).trans hlive
    have hqueue := hfree.trans (.one (.sessionQueue hs) hP)
    have hv : (((m.sessionRetire s).sessionFreeDevices s).sessionAddToGcQueue s).user.live u := by
      have hsame : ∀ m : Manager, (m.sessionAddToGcQueue s).user = m.user := by
        intro m
        unfold sessionAddToGcQueue
        split <;> rfl
      rw [hsame]
      exact (congrFun (congrArg Objects.userLive hobj) u).trans hulive
    have hboth := hqueue.trans (.one (.userQueue hv) hP)
    dsimp only
    generalize ((((m.sessionRetire s).sessionFreeDevices s).sessionAddToGcQueue
      s).userAddToGcQueue u) = m₁ at hboth ⊢
    have hstarted : Does P D m (m₁.sessionPutStarted s false) :=
      hboth.trans (.one (.setStarted s false) haccount)
    generalize m₁.sessionPutStarted s false = m₂ at hstarted ⊢
    refine (hstarted.trans ?_).trans (.one (.resetLeader s) hP)
    split
    · exact .refl m₂
    · split
      · exact does_setActive hP env (by simp)
      · exact .refl m₂

end Functions

end Elogind
