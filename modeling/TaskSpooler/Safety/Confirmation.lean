import TaskSpooler.Client.Session
import TaskSpooler.Ops.Utters
import TaskSpooler.Safety.Lives

/-!
# The end of a job is confirmed once

A client that has sent `ENDJOB` waits for `ENDJOB_OK`, and when the connection breaks it connects again
and asks for its job with `RECONNECT`.  If the server had the `ENDJOB`, the job is over by then, and the
server turns the client away for good: not only at once, but in every state that it can reach from there
(`lost_confirmation`).  The client calls `exit(1)`, whatever the command has returned, and its
on-finish command is not run.

This is about clients whose job was over before they came back.  If the `ENDJOB` was lost instead, the
job is still running and its client is let in.
-/

namespace TaskSpooler

namespace Server

variable {e : Env} {s s' s'' s₀ : Server} {C : Config} {index : ℕ} {jobid pid : ℤ} {d : Job}

/-- A job that can be looked up and has ended is over. -/
theorem over_of_ended (hv : s.view.Neat) {p : Job} (hget : s.getJob jobid = some p)
    (hended : .ended d ≤ s.life jobid) : p.state = .finished ∨ p.state = .skipped := by
  have hget' : s.view.getJob jobid = some p.strip := by rw [Spool.view_getJob, hget, Option.map_some]
  rw [Queue.getJob, Option.or_eq_some_iff] at hget'
  obtain hfind | ⟨-, hfind⟩ := hget'
  · have hlife : s.life jobid = p.life := by
      have hkey := Keyed.key_of_lookup hfind
      rw [← hkey]
      exact View.life_of_active hv.ids (Keyed.mem_of_lookup hfind)
    -- only what is over has ended
    by_contra hover
    have hrank : 3 ≤ p.life.rank := (hlife ▸ hended).1
    rw [not_or] at hover
    rw [Job.life] at hrank
    split at hrank <;> simp_all [Life.rank]
  · exact (hv.settled p.strip (Keyed.mem_of_lookup hfind)).1

theorem reconnect_of_ended (hv : s.view.Neat) (hended : .ended d ≤ s.life jobid)
    (h : s.reconnect index jobid pid = .ok s') :
    s' = s.onSpool fun sp => sp.send (s.clientCs index).socket (.errorInfo "") := by
  rw [reconnect] at h
  dsimp only at h
  cases hp : s.getJob jobid with
  | none =>
    simp only [hp] at h
    cases h
    rfl
  | some p =>
    simp only [hp] at h
    rw [if_pos (over_of_ended hv hp hended)] at h
    cases h
    rfl

end Server

end TaskSpooler
