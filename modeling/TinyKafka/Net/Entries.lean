import TinyKafka.Net.ReactorSteps

/-!
# Entries compared before and after

For results about one side of the connections. `System.Entrywise R` says that every connection
that is open in the second state was open in the first, and that its two entries are related by
`R`. When `R` does not mind what happens to an entry while its buffers are sent
(`Connection.IgnoresSending`), then closing, `handle_write` and the completions of the ring give
related states.
-/

namespace TinyKafka

variable {n : ℕ}

/-- A relation that allows everything that sending does to an entry. -/
structure Connection.IgnoresSending (R : Connection → Connection → Prop) : Prop where
  refl : ∀ conn, R conn conn
  trans : ∀ {conn conn' conn''}, R conn conn' → R conn' conn'' → R conn conn''
  sent : ∀ conn m, R conn { conn with writeOffset := conn.writeOffset + m }
  submitted : ∀ conn, R conn { conn with splicePending := true, spliceFd := none, spliceLen := 0 }
  completed : ∀ conn, R conn { conn with splicePending := false }
  advanced : ∀ conn, R conn conn.advanceWriteQueue

namespace System

/-- The connections open in `s'` were open in `s`, and their entries are related. -/
def Entrywise (R : Connection → Connection → Prop) (s s' : System n) : Prop :=
  ∀ i fd c, s'.owner i fd = some c →
    s.owner i fd = some c ∧ R (s.connection i fd) (s'.connection i fd)

variable {R : Connection → Connection → Prop} {s s' s'' : System n} {i : Fin n} {fd : ℕ}
  {conn : Connection}

theorem connection_setConnection_ite (j : Fin n) (fd' : ℕ) :
    (s.setConnection i fd conn).connection j fd' =
      if j = i ∧ fd' = fd then conn else s.connection j fd' := by
  rw [connection, connections_setConnection, connection]
  split <;> rfl

section

variable (hR : Connection.IgnoresSending R)

include hR

theorem Entrywise.trans (h : s.Entrywise R s') (h' : s'.Entrywise R s'') : s.Entrywise R s'' := by
  intro i fd c howner
  obtain ⟨howner', hrel'⟩ := h' i fd c howner
  obtain ⟨howner, hrel⟩ := h i fd c howner'
  exact ⟨howner, hR.trans hrel hrel'⟩

theorem entrywise_of_eq (hconn : s'.connections = s.connections)
    (howner : ∀ i fd, s'.owner i fd = s.owner i fd) : s.Entrywise R s' := by
  intro i fd c hopen
  rw [howner] at hopen
  rw [connection, connection, hconn]
  exact ⟨hopen, hR.refl _⟩

theorem entrywise_setConnection (h : R (s.connection i fd) conn) :
    s.Entrywise R (s.setConnection i fd conn) := by
  intro j fd' c howner
  refine ⟨howner, ?_⟩
  rw [connection_setConnection_ite]
  split
  · next heq =>
    obtain ⟨rfl, rfl⟩ := heq
    exact h
  · exact hR.refl _

theorem entrywise_setWantWrite (b : Bool) : s.Entrywise R (s.setWantWrite i fd b) :=
  entrywise_of_eq hR (s.connections_setWantWrite i fd b) (s.owner_setWantWrite i fd b)

theorem entrywise_closeConnection : s.Entrywise R (s.closeConnection i fd) := by
  intro j fd' c howner
  rcases eq_or_ne fd' fd with rfl | hfd
  · simp [owner, closeConnection] at howner
  · rw [owner_closeConnection_of_ne hfd] at howner
    rw [connection, connection, connections_closeConnection, if_neg fun h => hfd h.2]
    exact ⟨howner, hR.refl _⟩

theorem entrywise_advanceWriteQueue (h : R (s.connection i fd) conn) :
    s.Entrywise R (s.advanceWriteQueue i fd conn) := by
  have hset : s.Entrywise R (s.setConnection i fd conn.advanceWriteQueue) :=
    entrywise_setConnection hR (hR.trans h (hR.advanced conn))
  unfold System.advanceWriteQueue
  dsimp only
  split
  · exact hset.trans hR (entrywise_setWantWrite hR false)
  · exact hset

theorem entrywise_putResponse {data : Bytes} (h : R (s.connection i fd) (conn.enqueue data)) :
    s.Entrywise R (s.putResponse i fd conn data) := by
  have hset : s.Entrywise R (s.setConnection i fd (conn.enqueue data)) :=
    entrywise_setConnection hR h
  rcases s.putResponse_eq i fd conn data with heq | heq <;> rw [heq]
  · exact hset
  · exact hset.trans hR (entrywise_setWantWrite hR true)

theorem entrywise_handleWrite (env : WriteEnv) : s.Entrywise R (s.handleWrite i fd env) := by
  rw [handleWrite]
  split
  · exact entrywise_closeConnection hR
  · next sent _ =>
    have hsent := hR.sent (s.connection i fd) sent
    dsimp only
    split
    · split
      · exact (entrywise_setConnection hR (hR.trans hsent (hR.submitted _))).trans hR
          (entrywise_of_eq hR rfl fun _ _ => rfl)
      · exact entrywise_advanceWriteQueue hR hsent
      · exact entrywise_setConnection hR hsent
    · exact entrywise_setConnection hR hsent

theorem entrywise_harvest (k written : ℕ) : s.Entrywise R (s.harvest i k written) := by
  rw [harvest]
  split
  swap
  · exact entrywise_of_eq hR rfl fun _ _ => rfl
  next op _ =>
  have hpop : s.Entrywise R { s with
      rings := Function.update s.rings i ((s.rings i).eraseIdx k) } :=
    entrywise_of_eq hR rfl fun _ _ => rfl
  refine hpop.trans hR ?_
  rcases op with ⟨path, w⟩ | ⟨fd, file, len⟩
  · exact entrywise_of_eq hR rfl fun _ _ => rfl
  · rw [complete]
    split
    · next conn hconn =>
      split
      · exact entrywise_of_eq hR rfl fun _ _ => rfl
      · refine entrywise_advanceWriteQueue hR ?_
        rw [connection, hconn]
        exact hR.completed conn
    · exact entrywise_of_eq hR rfl fun _ _ => rfl

end

end System

end TinyKafka
