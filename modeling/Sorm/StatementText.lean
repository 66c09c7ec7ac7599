import Sorm.DisciplineRun

/-!
# The text of a statement

A builder that succeeds has put its pieces one after the other into the buffer, none of them cut
off. What an operation prepares is then the text of the statement it has built.
-/

namespace Sorm

open Interaction Monitor

namespace Buf

structure Holds (b : Buf) (t : Text) : Prop where
  text : b.text = t
  offset : b.offset = t.length

theorem holds_empty : Buf.empty.Holds [] := ⟨rfl, rfl⟩

/-- A text that fits is put behind the one that is there. -/
theorem Holds.snprintf {b : Buf} {t s : Text} (h : b.Holds t) {size : ℕ}
    (hsize : s.length ≤ size - 1) : (b.snprintf size s).Holds (t ++ s) := by
  constructor
  · unfold Buf.snprintf
    dsimp only
    rw [List.take_of_length_le hsize, if_pos (by rw [h.offset, h.text]), h.text, h.offset,
      List.take_length]
  · unfold Buf.snprintf
    dsimp only
    rw [h.offset, List.length_append]

theorem Holds.append {b b' : Buf} {t s : Text} (h : b.Holds t) (hb : b.append s = .ok b') :
    b'.Holds (t ++ s) ∧ (t ++ s).length ≤ sqlStmtMaxLen := by
  unfold Buf.append Buf.check at hb
  dsimp only at hb
  split_ifs at hb with _ _ hlong
  cases hb
  have hlen : (t ++ s).length ≤ sqlStmtMaxLen := by
    simpa [Buf.snprintf, h.offset] using hlong
  refine ⟨h.snprintf ?_, hlen⟩
  rw [List.length_append] at hlen
  rw [h.offset]
  omega

end Buf

theorem Build.bind_ok {built : Build} {f : Buf → Build} {b : Buf} (h : built >>= f = .ok b) :
    ∃ b', built = .ok b' ∧ f b' = .ok b := by
  rcases built with e | b'
  · cases h
  · exact ⟨b', rfl, h⟩

theorem deleteByStmt_text {table : TableDescriptor} {filter : Text} {b : Buf}
    (h : deleteByStmt table (some filter) = .ok b) :
    b.text = "DELETE FROM ".toList ++ table.name ++ " WHERE ".toList ++ filter := by
  obtain ⟨b₁, h₁, h₂⟩ := Build.bind_ok h
  have hholds := ((Buf.holds_empty.append h₁).1.append h₂).1
  rw [hholds.text]
  simp only [List.nil_append, List.append_assoc]
  rfl

theorem single_stmt_text {table : TableDescriptor} {columnsName filter : Text} {b : Buf}
    (h : (SelectTables.single table).stmt columnsName (some filter) = .ok b) :
    b.text = "SELECT ".toList ++ columnsName ++ " FROM ".toList ++ table.name ++
      " WHERE ".toList ++ filter := by
  obtain ⟨b₁, h₁, h₂⟩ := Build.bind_ok h
  have hholds := ((Buf.holds_empty.append h₁).1.append h₂).1
  rw [hholds.text]
  simp only [List.nil_append, List.append_assoc]
  rfl

def prepareMonitor (Prepares : Text → Prop) : Monitor Resp Unit :=
  Monitor.fold (fun _ c => ∀ sqlStmt n, c = .prepare sqlStmt n →
    Prepares sqlStmt ∧ n = sqlStmtMaxLen) fun _ _ => ()

theorem prepareMonitor_perform {Prepares : Text → Prop} {c : Call} {P : Resp c → Unit → Prop}
    (hc : ∀ sqlStmt n, c = .prepare sqlStmt n → Prepares sqlStmt ∧ n = sqlStmtMaxLen) (hP : ∀ r, P r ()) :
    Triple (prepareMonitor Prepares) (fun _ => True) (perform c) P :=
  Triple.perform (fun _ _ => hc) fun _ r _ _ _ => hP r

theorem prepare_discipline (Prepares : Text → Prop) (conn : Connection) :
    Discipline (prepareMonitor Prepares) conn Prepares fun _ _ => True where
  isLocal := fun hc => prepareMonitor_perform (by rintro _ _ rfl; cases hc) fun _ => trivial
  use := fun hc _ => prepareMonitor_perform (by rintro _ _ rfl; cases hc) fun _ => trivial
  rowId := fun hc => prepareMonitor_perform (by rintro _ _ rfl; cases hc) fun _ => trivial
  prepare := by
    intro hs sqlStmt hsql
    apply prepareMonitor_perform
    · rintro _ _ h
      cases h
      exact ⟨hsql, rfl⟩
    · intro r
      split <;> trivial
  finalize := by
    intro hs h
    exact Keeps.retry _ (prepareMonitor_perform (by rintro _ _ h; cases h) fun _ => trivial)
  step := by
    intro hs h rwFlag _
    apply keeps_sqlite3Step
    · exact fun c hc => prepareMonitor_perform (by rintro _ _ rfl; cases hc) fun _ => trivial
    · exact fun c hc => prepareMonitor_perform (by rintro _ _ rfl; cases hc) fun _ => trivial
    · exact prepareMonitor_perform (by rintro _ _ h; cases h) fun _ => trivial

theorem prepared_of_emits {Prepares : Text → Prop} {α : Type} {p q : Act α} {tr : List SormEvent}
    (hp : Keeps (prepareMonitor Prepares) (fun _ => True) p) (he : p.Emits tr q) {sqlStmt : Text}
    {n : ℕ} {r : DbCode × Option Handle} (hr : (⟨.prepare sqlStmt n, r⟩ : SormEvent) ∈ tr) :
    Prepares sqlStmt ∧ n = sqlStmtMaxLen := by
  obtain ⟨tr₁, tr₂, rfl⟩ := List.append_of_mem hr
  exact wp_ok (hp () trivial) he (fold_run () tr₁) sqlStmt n rfl

end Sorm
