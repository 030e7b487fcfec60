import Codery.Effect.Program
import Codery.Effect.Run
import Codery.Effect.Safety
import Codery.Effect.May
import Codery.Effect.Pool
import Codery.Effect.Serial
import Codery.Effect.Script
import Codery.Effect.Until
import Codery.Effect.Files
import Codery.Effect.Machine
import Codery.Effect.Broadcast
import Codery.Effect.Follow
import Codery.Effect.Vet
import Codery.Effect.Ghost
import Codery.Config
import Codery.ServiceDef
import Codery.Routes
import Codery.Host.Docker
import Codery.Host.StateDir
import Codery.Host.Database
import Codery.Host.Proxy
import Codery.Host.World
import Codery.State
import Codery.Proxies
import Codery.Images
import Codery.Deploy
import Codery.Commands
import Codery.Diagnose
import Codery.Footprint
import Codery.Specs
import Codery.LifecycleSpecs
import Codery.Slots
import Codery.Refinement
import Codery.Guards
import Codery.Operations
import Codery.Runs
import Codery.Scenario
import Codery.Availability
import Codery.Interleaving
import Codery.Outcome
import Codery.Fixes
import Codery.Previews
import Codery.Record
import Codery.Schema
import Codery.Aborts
import Codery.Layers
import Codery.RouteMap
import Codery.Caddyfile
import Codery.HostPorts
import Codery.Reading
import Codery.Healthy
import Codery.PortChecks
import Codery.Addresses
import Codery.Brackets
import Codery.Blocks
import Codery.Servers
import Codery.Sections
import Codery.Paths
import Codery.Auth
import Codery.UdpProxy
import Codery.Sessions
import Codery.Forwarders
import Codery.McpExec
import Codery.Jobs
import Codery.Serving
import Codery.AppClaims
import Codery.AppRoutes
import Codery.Bundles
import Codery.BundleSync
import Codery.Dashboard
import Codery.Rollbacks
import Codery.Effect.Loop
import Codery.EnvFile
import Codery.Substitution
import Codery.ContainerEnv
import Codery.Placeholders
import Codery.HostMetrics
import Codery.OomAlarms
import Codery.StatusFeed
import Codery.ImageNames
import Codery.Effect.Rely
import Codery.Effect.Parts
import Codery.Dispatch
import Codery.ExecEffects
import Codery.PortBindings
import Codery.ProxyTargets
import Codery.Shell.Lexer
import Codery.Shell.Commands
import Codery.RunScript
import Codery.Numerals
import Codery.ProcStat
import Codery.S6
import Codery.AppNames
import Codery.RollbackRecord
import Codery.RollbackChoice
import Codery.TcpWait
import Codery.HealthRules
import Codery.SsListing
import Codery.Utf8
import Codery.ReadTail
import Codery.OpLabels
import Codery.Utf16
import Codery.StdioLoop
import Codery.StdioTurns
import Codery.StdioMessages
import Codery.EventStreams
import Codery.TcpProxy
import Codery.Base64
import Codery.Effect.History
import Codery.GithubApp
import Codery.GithubTokens
import Codery.GithubSession
import Codery.Releases
import Codery.ServiceFiles
import Codery.Definitions
import Codery.Effect.Locks
import Codery.Isolation
import Codery.AtOnce
import Codery.Stages
import Codery.StageLaws
import Codery.Tables
