import EchoVault.Bytes
import EchoVault.Float
import EchoVault.Convert
import EchoVault.Resp
import EchoVault.Aof
import EchoVault.Acl
import EchoVault.AclUsers
import EchoVault.AclMerge
import EchoVault.Memberlist
import EchoVault.Connection
import EchoVault.Message
import EchoVault.Keyspace.Server
import EchoVault.Keyspace.Op
import EchoVault.Keyspace.Prog
import EchoVault.Keyspace.Logic
import EchoVault.Keyspace.Frame
import EchoVault.Keyspace.LockTable
import EchoVault.Keyspace.Quiet
import EchoVault.Keyspace.Refs
import EchoVault.Handler.Common
import EchoVault.Handler.Hash
import EchoVault.Handler.Set
import EchoVault.Handler.SetPlugin
import EchoVault.Handler.Concurrency
import EchoVault.Handler.Locks
import EchoVault.Handler.Eviction
import EchoVault.Handler.Replies
import EchoVault.Handler.Errors
import EchoVault.Handler.Release
import EchoVault.Handler.LockRuns
import EchoVault.Handler.Runs
import EchoVault.Handler.Refs
import EchoVault.Handler.Races
import EchoVault.Handler.Lockable
