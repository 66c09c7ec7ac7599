import Sorm.SelectOperations
import Sorm.Transaction

/-!
# Sessions

What a client can do with one connection: the public operations, with the connection and the
iterators it has open carried from one to the next. A `Run` is a sequence of operations that have
returned; an operation still under way is a `Started` one that follows it.
-/

namespace Sorm

open Interaction

structure Session where
  conn : Connection
  iterators : List Iterator

def Session.handles (s : Session) : Multiset (Option Handle) :=
  (s.iterators.map Iterator.stmtHandle : List (Option Handle))

/-- A public operation with its arguments. An iterator is named by its place among the open ones;
one that is not there is the NULL iterator. -/
inductive Op
  | runStmt (sqlStmt : CString) (rwlockFlag : RwlockFlag)
  | createTable (tableDesc : Option TableDescriptor)
  | deleteTable (tableDesc : Option TableDescriptor)
  | createIndex (tableDesc : Option TableDescriptor) (columnsName : Option CString)
  | dropIndex (columnsName : Option CString)
  | insert {table : TableDescriptor} (row : Option (Object table))
  | replace {table : TableDescriptor} (row : Option (Object table))
  | update {table : TableDescriptor} (row : Option (Object table))
  | delete {table : TableDescriptor} (row : Option (Object table))
  | deleteBy (tableDesc : Option TableDescriptor) (filter : Option Text)
  | deleteByColumn (tableDesc : Option TableDescriptor) (columnIndex : ℕ)
      (columnValue : Option Pointer)
  | selectOneByColumn (allocator : Allocator) (tableDesc : TableDescriptor)
      (columnsName : Option CString) (columnIndex : ℕ) (columnValue : Option Pointer)
      (getRow : Bool)
  | selectSomeArrayBy (allocator : Allocator) (tables : SelectTables)
      (columnsName filter : Option CString) (rowsNum : Option ℤ) (isTablesSelect : List Bool)
  | selectSomeListBy (allocator : Allocator) (tables : SelectTables)
      (columnsName filter : Option CString) (rowsNum : Option ℤ) (isTablesSelect : List Bool)
  | selectAllArrayBy (rounds : ℕ) (allocator : Allocator) (tableDesc : TableDescriptor)
      (columnsName filter : Option CString) (rowsNum : Option ℤ) (getRow : Bool)
  | selectAllArrayByJoin (rounds : ℕ) (allocator : Allocator) (tables : SelectTables)
      (columnsName filter : Option CString) (rowsNum : Option ℤ) (isTablesSelect : List Bool)
  | selectAllListBy (rounds : ℕ) (allocator : Allocator) (tables : SelectTables)
      (columnsName filter : Option CString) (rowsNum : Option ℤ) (isTablesSelect : List Bool)
  | selectIterateByOpen (allocator : Allocator) (tables : SelectTables)
      (columnsName filter : Option CString)
  | selectIterateBy (iterator : ℕ) (isTableSelect : List Bool)
  | selectIterateClose (iterator : ℕ)
  | beginWriteTransaction
  | beginReadTransaction
  | commitTransaction
  | rollbackTransaction

namespace Session

def keep {α : Type} (s : Session) (p : Act α) (code : α → SormError) : Act (SormError × Session) := do
  let a ← p
  return (code a, s)

def onConn (s : Session) (p : Act (SormError × Connection)) : Act (SormError × Session) := do
  let (code, conn) ← p
  return (code, { s with conn })

def openIterator (s : Session) (p : Act Opened) : Act (SormError × Session) := do
  let opened ← p
  return (opened.code, { s with iterators := s.iterators ++ opened.iterator.toList })

def iterate (s : Session) (k : ℕ) (isTableSelect : List Bool) : Act (SormError × Session) :=
  match s.iterators[k]? with
  | none => return (.argNull, s)
  | some iterator => do
      let (code, iterator, _) ← selectIterate s.conn iterator isTableSelect
      return (code, { s with iterators := s.iterators.set k iterator })

def closeIterator (s : Session) (k : ℕ) : Act (SormError × Session) :=
  match s.iterators[k]? with
  | none => return (.argNull, s)
  | some iterator => do
      let code ← sormSelectIterateClose iterator
      return (code, { s with iterators := s.iterators.eraseIdx k })

end Session

def Op.prog (s : Session) : Op → Act (SormError × Session)
  | .runStmt sqlStmt rwlockFlag => s.keep (sormRunStmt s.conn sqlStmt rwlockFlag) id
  | .createTable tableDesc => s.keep (sormCreateTable s.conn tableDesc) id
  | .deleteTable tableDesc => s.keep (sormDeleteTable s.conn tableDesc) id
  | .createIndex tableDesc columnsName =>
      s.keep (sormCreateIndex s.conn tableDesc columnsName) id
  | .dropIndex columnsName => s.keep (sormDropIndex s.conn columnsName) id
  | .insert row => s.keep (sormInsert s.conn row) Prod.fst
  | .replace row => s.keep (sormReplace s.conn row) Prod.fst
  | .update row => s.keep (sormUpdate s.conn row) id
  | .delete row => s.keep (sormDelete s.conn row) id
  | .deleteBy tableDesc filter => s.keep (sormDeleteBy s.conn tableDesc filter) id
  | .deleteByColumn tableDesc columnIndex columnValue =>
      s.keep (sormDeleteByColumn s.conn tableDesc columnIndex columnValue) id
  | .selectOneByColumn allocator tableDesc columnsName columnIndex columnValue getRow =>
      s.keep (sormSelectOneByColumn s.conn allocator tableDesc columnsName columnIndex columnValue
        getRow) Prod.fst
  | .selectSomeArrayBy allocator tables columnsName filter rowsNum isTablesSelect =>
      s.keep (sormSelectSomeArrayBy s.conn allocator tables columnsName filter rowsNum
        isTablesSelect) Selected.code
  | .selectSomeListBy allocator tables columnsName filter rowsNum isTablesSelect =>
      s.keep (sormSelectSomeListBy s.conn allocator tables columnsName filter rowsNum
        isTablesSelect) Selected.code
  | .selectAllArrayBy rounds allocator tableDesc columnsName filter rowsNum getRow =>
      s.keep (sormSelectAllArrayBy rounds s.conn allocator tableDesc columnsName filter rowsNum
        getRow) Selected.code
  | .selectAllArrayByJoin rounds allocator tables columnsName filter rowsNum isTablesSelect =>
      s.keep (sormSelectAllArrayByJoin rounds s.conn allocator tables columnsName filter rowsNum
        isTablesSelect) Selected.code
  | .selectAllListBy rounds allocator tables columnsName filter rowsNum isTablesSelect =>
      s.keep (sormSelectAllListBy rounds s.conn allocator tables columnsName filter rowsNum
        isTablesSelect) Selected.code
  | .selectIterateByOpen allocator tables columnsName filter =>
      s.openIterator (sormSelectIterateByOpen s.conn allocator tables columnsName filter)
  | .selectIterateBy iterator isTableSelect => s.iterate iterator isTableSelect
  | .selectIterateClose iterator => s.closeIterator iterator
  | .beginWriteTransaction => s.onConn (sormBeginWriteTransaction s.conn)
  | .beginReadTransaction => s.onConn (sormBeginReadTransaction s.conn)
  | .commitTransaction => s.onConn (sormCommitTransaction s.conn)
  | .rollbackTransaction => s.onConn (sormRollbackTransaction s.conn)

def Op.isTransaction : Op → Bool
  | .beginWriteTransaction | .beginReadTransaction | .commitTransaction | .rollbackTransaction =>
      true
  | _ => false

def Op.isBegin : Op → Bool
  | .beginWriteTransaction | .beginReadTransaction => true
  | _ => false

structure Started where
  op : Op
  before : Session
  trace : List SormEvent
  rest : Act (SormError × Session)
  emits : (op.prog before).Emits trace rest

structure Finished extends Started where
  code : SormError
  after : Session
  returned : rest = .pure (code, after)

theorem Finished.emits_pure (step : Finished) :
    (step.op.prog step.before).Emits step.trace (.pure (step.code, step.after)) :=
  step.returned ▸ step.emits

/-- Operations one after the other, each from the session the one before it left. -/
inductive Run : Session → List Finished → Session → Prop
  | nil (s : Session) : Run s [] s
  | cons (step : Finished) {steps : List Finished} {s : Session} (h : Run step.after steps s) :
      Run step.before (step :: steps) s

def runTrace (steps : List Finished) : List SormEvent := steps.flatMap fun step => step.trace

@[simp] theorem runTrace_nil : runTrace [] = [] := rfl

@[simp] theorem runTrace_cons (step : Finished) (steps : List Finished) :
    runTrace (step :: steps) = step.trace ++ runTrace steps := rfl

@[simp] theorem runTrace_append (steps steps' : List Finished) :
    runTrace (steps ++ steps') = runTrace steps ++ runTrace steps' := List.flatMap_append

theorem Run.split {s s'' : Session} {steps steps' : List Finished}
    (h : Run s (steps ++ steps') s'') : ∃ s', Run s steps s' ∧ Run s' steps' s'' := by
  induction steps generalizing s with
  | nil => exact ⟨s, .nil s, h⟩
  | cons step steps ih =>
      cases h with
      | cons _ h =>
          obtain ⟨s', h₁, h₂⟩ := ih h
          exact ⟨s', .cons step h₁, h₂⟩

def program (s : Session) : List Op → Act Session
  | [] => return s
  | op :: ops => do
      let (_, s) ← op.prog s
      program s ops

theorem Run.emits {s s' : Session} {steps : List Finished} (h : Run s steps s') (ops : List Op) :
    (program s (steps.map (fun step : Finished => step.op) ++ ops)).Emits (runTrace steps)
      (program s' ops) := by
  induction h with
  | nil s => exact .nil _
  | @cons step steps s h ih =>
      have hfirst := step.emits_pure.bind fun r =>
        program r.2 (steps.map (fun step : Finished => step.op) ++ ops)
      exact hfirst.append ih

/-- A run with the operation that is under way after it. -/
theorem Run.emits_started {s : Session} {steps : List Finished} {last : Started}
    (h : Run s steps last.before) :
    (program s (steps.map (fun step : Finished => step.op) ++ [last.op])).Emits
      (runTrace steps ++ last.trace) (last.rest >>= fun r => return r.2) :=
  (h.emits [last.op]).append (last.emits.bind _)

theorem program_triple {σ : Type} {M : Monitor Resp σ} {Inv : Session → σ → Prop} {ops : List Op}
    (hop : ∀ op ∈ ops, ∀ s, Monitor.Triple M (Inv s) (op.prog s) fun r => Inv r.2) (s : Session) :
    Monitor.Triple M (Inv s) (program s ops) Inv := by
  induction ops generalizing s with
  | nil => exact Monitor.Triple.pure fun m hm => hm
  | cons op ops ih =>
      apply Monitor.Triple.bind (hop op List.mem_cons_self s)
      intro r
      exact ih (fun op' h => hop op' (List.mem_cons_of_mem _ h)) r.2

end Sorm
