import SeaTunnel.Jdbc.Dialect

namespace SeaTunnel.Jdbc.Conn

open Jdbc.Dialect (JdbcDialectKind)

/-- A client is closed once its connection has ended. -/
structure PgClient where
  closed : Bool
  deriving DecidableEq, Repr

/-- The clients that wait to be used again. -/
structure PgPool where
  idle : List PgClient
  deriving DecidableEq, Repr

namespace PgPool

def new : PgPool := ⟨[]⟩

/-- `none` waits for a client to come back: the pool holds a sender of its own channel, so that receiving from the
empty channel never ends. Only a closed client makes it open a connection. -/
def get (pool : PgPool) : Option (PgClient × PgPool) :=
  match pool.idle with
  | [] => none
  | client :: idle => some (if client.closed then ⟨false⟩ else client, ⟨idle⟩)

def giveBack (pool : PgPool) (client : PgClient) : PgPool :=
  if client.closed then pool else ⟨pool.idle ++ [client]⟩

end PgPool

inductive DbEndpoint
  | mySql
  | postgres (pool : PgPool)
  deriving DecidableEq, Repr

/-- `none` never returns: no client comes back to a pool that nobody else has. -/
def DbEndpoint.connect : JdbcDialectKind → Option DbEndpoint
  | .postgres => PgPool.new.get.map fun got ↦ .postgres (got.2.giveBack got.1)
  | .mySql | .tiDb => some .mySql

theorem connect_isSome_iff (kind : JdbcDialectKind) : (DbEndpoint.connect kind).isSome ↔ kind ≠ .postgres := by
  cases kind with
  | mySql | tiDb => exact iff_of_true rfl (by decide)
  | postgres => exact iff_of_false (by decide) fun h ↦ h rfl

end SeaTunnel.Jdbc.Conn
