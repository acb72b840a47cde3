/-
The key-value store over SQL, one statement for each operation, and the map with expiring entries that it stands for. A
statement sees every row of the table, expired or not, and has to tell them apart itself; the map has no expired
entries. Any number of clients use the store at once, and `mget` is one statement for every hundred of its keys.
-/
import Mathlib.Data.List.Dedup
import Zedspaces.Lib.TtlMap

namespace Zedspaces.Web

open Lib

/-- What SQLite and the driver make of numbers: `CAST(CAST(CAST(value AS INTEGER)+delta AS INTEGER) AS TEXT)`, and
`Number(value)`. -/
structure SqlNumbers where
  sum : String → Int → String
  number : String → Int

/-! ## The table -/

namespace SqlKv

/-- The rows of `kv`, by their primary key. -/
abbrev Table := TtlMap String String

/-- `expires_at IS NOT NULL AND expires_at<=?` -/
def expired (now : Int) (row : Timed String) : Bool :=
  match row.expiresAt with
  | none => false
  | some t => decide (t ≤ now)

section
variable (table : Table) (now : Int) (key : String)

/-- `SELECT value FROM kv WHERE key=? AND (expires_at IS NULL OR expires_at>?)` -/
def get : Option String := ((table key).filter (·.live now)).map Timed.value

/-- `INSERT … ON CONFLICT(key) DO UPDATE …`, with `nx` only over an expired row; whether a row was written. -/
def set (value : String) (exMs : Option Int) (nx : Bool) : Table × Bool :=
  let excluded := Timed.since now value exMs
  match table key with
  | none => (Function.update table key (some excluded), true)
  | some row => if !nx || expired now row then (Function.update table key (some excluded), true) else (table, false)

def del : Table := Function.update table key none

/-- `DELETE FROM kv WHERE key=? AND value=?` -/
def compareDelete (value : String) : Table :=
  match table key with
  | none => table
  | some row => if row.value = value then Function.update table key none else table

/-- The row that `incrBy` writes over the one it finds. -/
def counted (sql : SqlNumbers) (delta : Int) (exMs : Option Int) (found : Option (Timed String)) : Timed String :=
  let excluded := Timed.since now (toString delta) exMs
  match found with
  | none => excluded
  | some row =>
    ⟨if expired now row then toString delta else sql.sum row.value delta,
      if expired now row then excluded.expiresAt else row.expiresAt⟩

def incrBy (sql : SqlNumbers) (delta : Int) (exMs : Option Int) : Table × Int :=
  let row := counted now sql delta exMs (table key)
  (Function.update table key (some row), sql.number row.value)

/-- `UPDATE kv SET expires_at=? WHERE key=? AND (expires_at IS NULL OR expires_at>?)` -/
def expire (exMs : Int) : Table :=
  match table key with
  | none => table
  | some row => if row.live now then Function.update table key (some { row with expiresAt := some (now + exMs) }) else table

/-- `SELECT key,value FROM kv WHERE key IN (…) AND (expires_at IS NULL OR expires_at>?)` -/
def select (keys : List String) : List (String × String) :=
  keys.dedup.filterMap fun key => (get table now key).map (key, ·)

/-- `DELETE FROM kv WHERE expires_at<=?` -/
def sweepExpiredKv : Table := fun key => (table key).filter fun row => !expired now row

end

end SqlKv

/-! ## The map -/

namespace KvSpec

section
variable (m : TtlMap String String) (now : Int) (key : String)

def get : Option String := (m.atTime now key).map Timed.value

def set (value : String) (exMs : Option Int) (nx : Bool) : TtlMap String String × Bool :=
  (m.alter now key fun entry => if nx && entry.isSome then entry else some (Timed.since now value exMs),
    !(nx && (m.atTime now key).isSome))

def del : TtlMap String String := m.alter now key fun _ => none

def compareDelete (value : String) : TtlMap String String := m.alter now key (·.filter (·.value ≠ value))

/-- The counter after the addition; a key that is absent starts with `delta` and the time to live. -/
def counted (sql : SqlNumbers) (delta : Int) (exMs : Option Int) (entry : Option (Timed String)) : Timed String :=
  match entry with
  | none => Timed.since now (toString delta) exMs
  | some entry => { entry with value := sql.sum entry.value delta }

def incrBy (sql : SqlNumbers) (delta : Int) (exMs : Option Int) : TtlMap String String × Int :=
  (m.alter now key fun entry => some (counted now sql delta exMs entry),
    sql.number (counted now sql delta exMs (m.atTime now key)).value)

def expire (exMs : Int) : TtlMap String String :=
  m.alter now key (·.map fun entry => { entry with expiresAt := some (now + exMs) })

def select (keys : List String) : List (String × String) :=
  keys.dedup.filterMap fun key => (get m now key).map (key, ·)

end

end KvSpec

/-! ## Clients -/

inductive KvStatement where
  | get (key : String)
  | set (key value : String) (exMs : Option Int) (nx : Bool)
  | del (key : String)
  | compareDelete (key value : String)
  | incrBy (key : String) (delta : Int) (exMs : Option Int)
  | expire (key : String) (exMs : Int)
  | select (keys : List String)

inductive KvReply where
  | value (value : Option String)
  | flag (written : Bool)
  | done
  | number (n : Int)
  | rows (found : List (String × String))
  deriving DecidableEq, Repr

def SqlKv.answer (sql : SqlNumbers) (now : Int) (table : SqlKv.Table) : KvStatement → SqlKv.Table × KvReply
  | .get key => (table, .value (get table now key))
  | .set key value exMs nx => ((set table now key value exMs nx).1, .flag (set table now key value exMs nx).2)
  | .del key => (del table key, .done)
  | .compareDelete key value => (compareDelete table key value, .done)
  | .incrBy key delta exMs => ((incrBy table now key sql delta exMs).1, .number (incrBy table now key sql delta exMs).2)
  | .expire key exMs => (expire table now key exMs, .done)
  | .select keys => (table, .rows (select table now keys))

def KvSpec.answer (sql : SqlNumbers) (now : Int) (m : TtlMap String String) : KvStatement → TtlMap String String × KvReply
  | .get key => (m, .value (get m now key))
  | .set key value exMs nx => ((set m now key value exMs nx).1, .flag (set m now key value exMs nx).2)
  | .del key => (del m now key, .done)
  | .compareDelete key value => (compareDelete m now key value, .done)
  | .incrBy key delta exMs => ((incrBy m now key sql delta exMs).1, .number (incrBy m now key sql delta exMs).2)
  | .expire key exMs => (expire m now key exMs, .done)
  | .select keys => (m, .rows (select m now keys))

/-- How many keys one statement of `mget` asks for. -/
def mgetChunk : Nat := 100

/-- An `mget` under way: its keys, those not asked for yet, and the values found. -/
structure Mget where
  keys : List String
  rest : List String
  values : String → Option String

/-- The clock, the store, and the clients' `mget`s. -/
structure KvState where
  now : Int
  store : TtlMap String String
  mgets : Nat → Option Mget

inductive KvEvent where
  | advance (ms : Nat)
  | call (client : Nat) (statement : KvStatement)
  | mget (client : Nat) (keys : List String)
  | chunk (client : Nat)
  | sweep

inductive KvResult where
  | reply (reply : KvReply)
  | values (values : List (Option String))
  deriving DecidableEq, Repr

/-- What is known after the rows of one more statement. -/
def Mget.found (values : String → Option String) (rows : List (String × String)) : String → Option String :=
  rows.foldl (fun values (key, value) => Function.update values key (some value)) values

def KvReply.rows? : KvReply → List (String × String)
  | .rows found => found
  | _ => []

/-- A store as its clients use it: how it answers a statement, and what a sweep does. -/
structure KvStore where
  answer : Int → TtlMap String String → KvStatement → TtlMap String String × KvReply
  sweep : Int → TtlMap String String → TtlMap String String

/-- One event, and what a client is answered. -/
def KvStore.step (S : KvStore) (s : KvState) : KvEvent → KvState × Option (Nat × KvResult)
  | .advance ms => ({ s with now := s.now + ms }, none)
  | .call client statement =>
    ({ s with store := (S.answer s.now s.store statement).1 },
      some (client, .reply (S.answer s.now s.store statement).2))
  | .mget client keys =>
    if keys = [] then (s, some (client, .values []))
    else ({ s with mgets := Function.update s.mgets client (some ⟨keys, keys, fun _ => none⟩) }, none)
  | .chunk client =>
    match s.mgets client with
    | none => (s, none)
    | some g =>
      let r := S.answer s.now s.store (.select (g.rest.take mgetChunk))
      let values := Mget.found g.values r.2.rows?
      if g.rest.drop mgetChunk = [] then
        ({ s with store := r.1, mgets := Function.update s.mgets client none }, some (client, .values (g.keys.map values)))
      else
        ({ s with
          store := r.1
          mgets := Function.update s.mgets client (some ⟨g.keys, g.rest.drop mgetChunk, values⟩) }, none)
  | .sweep => ({ s with store := S.sweep s.now s.store }, none)

/-- What the clients are answered, in order. -/
def KvStore.results (S : KvStore) (s : KvState) : List KvEvent → List (Nat × KvResult)
  | [] => []
  | event :: events => (S.step s event).2.toList ++ results S (S.step s event).1 events

/-- The store in SQL. -/
def sqlKv (sql : SqlNumbers) : KvStore := ⟨SqlKv.answer sql, fun now table => SqlKv.sweepExpiredKv table now⟩

/-- The map, of which nothing is ever swept. -/
def kvSpec (sql : SqlNumbers) : KvStore := ⟨KvSpec.answer sql, fun _ m => m⟩

end Zedspaces.Web
