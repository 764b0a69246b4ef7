import FluxDB.Basic
import FluxDB.KV.Keys
import FluxDB.KV.Backend
import FluxDB.KV.Read
import FluxDB.KV.ReadSpec
import FluxDB.KV.Tables
import FluxDB.KV.Batch
import FluxDB.KV.Commit
import FluxDB.Shard.Stream
import FluxDB.Shard.FileName
import FluxDB.Shard.Injector
import FluxDB.Shard.Replay
