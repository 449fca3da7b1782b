import ServiceKit.Collection.Correctness.SafeMaps
import ServiceKit.Collection.Correctness.Timers
import ServiceKit.Consul.Correctness.WatchDelivery
import ServiceKit.Consul.Correctness.WatchOptions
import ServiceKit.Goctl.Correctness.FinderNames
import ServiceKit.Goctl.Correctness.FrontEnds
import ServiceKit.Goctl.Correctness.IgnoreTables
import ServiceKit.Goctl.Correctness.PrimaryKeys
import ServiceKit.Goprotoc.Correctness.DistinctNames
import ServiceKit.Goprotoc.Correctness.FreeNumbers
import ServiceKit.Goprotoc.Correctness.RawMessages
import ServiceKit.Hash.ConsistentHash
import ServiceKit.Hash.Correctness.Dispatch
import ServiceKit.Model.Correctness.Confinement
import ServiceKit.Model.Correctness.ListByPage
import ServiceKit.Model.Correctness.Uniqueness
import ServiceKit.Model.Correctness.UpsertResult
import ServiceKit.Mq.Correctness.ChannelLifecycle
import ServiceKit.Mq.Correctness.EventRoundTrip
import ServiceKit.Mq.Correctness.Recovery
import ServiceKit.Mq.Correctness.Topology
import ServiceKit.Mq.Correctness.Tracing
import ServiceKit.Oauth2.Correctness.TokenSafety
import ServiceKit.Rabbitmq.Correctness.ErrorPaths
import ServiceKit.Rabbitmq.Correctness.ReceiveLoops
import ServiceKit.Rabbitmq.Correctness.Settlement
import ServiceKit.Rest.Correctness.Serving
import ServiceKit.Sql2pb.Correctness.Enums
import ServiceKit.Sql2pb.Correctness.SnakeNames
import ServiceKit.Sql2pb.Correctness.Tables
import ServiceKit.Sqlc.Correctness.Staleness
import ServiceKit.Stringx.Correctness.Replacing
import ServiceKit.Syncx.Correctness.Flights
import ServiceKit.Templatefile.Correctness.AssetDirs
import ServiceKit.Templatefile.Correctness.WellFormed
import ServiceKit.Tracer.Correctness.Liveness
import ServiceKit.Tracer.Correctness.SpanNames
import ServiceKit.Watermill.Correctness.Escalation
import ServiceKit.Watermill.Correctness.LocalDelivery
import ServiceKit.Watermill.Correctness.RoundTrip
import ServiceKit.Watermill.Correctness.Settle
import ServiceKit.Watermill.Correctness.StreamDelivery
import ServiceKit.Watermill.Correctness.TableNames
