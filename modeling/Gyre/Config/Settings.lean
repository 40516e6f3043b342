/- digest: The settings of the agent, section by section, with their defaults and their fields. -/

import Gyre.Config.Schema

set_option autoImplicit false
set_option relaxedAutoImplicit false

namespace Gyre.Config

open Llm (Json)

section Leaves

/-- A path of the operating system, which may not be text. -/
structure PathBuf where
  bytes : ByteArray

namespace PathBuf

def toStr (p : PathBuf) : Option String := String.fromUTF8? p.bytes

def ofStr (s : String) : PathBuf := ⟨s.toUTF8⟩

def codec : Codec PathBuf where
  write p := p.toStr.map .string
  read
    | .string s => some (ofStr s)
    | _ => none

theorem ofStr_of_toStr {p : PathBuf} {s : String} (h : p.toStr = some s) : ofStr s = p := by
  obtain ⟨bytes⟩ := p
  unfold toStr String.fromUTF8? at h
  split at h
  · cases h
    rfl
  · cases h

theorem lawful_codec : codec.Lawful where
  keeps {p j} h := by
    obtain ⟨s, hs, rfl⟩ := Option.map_eq_some_iff.mp h
    exact congrArg some (ofStr_of_toStr hs)
  plain {p j} h fields := by
    obtain ⟨s, hs, rfl⟩ := Option.map_eq_some_iff.mp h
    intro heq
    cases heq

end PathBuf

inductive KeySource where
  | keychain
  | env
  | none
  deriving DecidableEq, Repr

namespace KeySource

def name : KeySource → String
  | .keychain => "keychain"
  | .env => "env"
  | .none => "none"

def ofName (s : String) : Option KeySource :=
  if s = "keychain" then some .keychain
  else if s = "env" then some .env
  else if s = "none" then some .none
  else Option.none

def codec : Codec KeySource where
  write k := some (.string k.name)
  read
    | .string s => ofName s
    | .object [(s, .null)] => ofName s
    | _ => Option.none

theorem total_codec : codec.Total := fun _ => Option.some_ne_none _

theorem lawful_codec : codec.Lawful where
  keeps {k j} h := by
    cases h
    cases k with
    | keychain => rfl
    | env => rfl
    | none => rfl
  plain h fields := by
    cases h
    intro heq
    cases heq

end KeySource

/-- How values of a TOML file are written to JSON and read from it. -/
structure TomlFormat (T : Type) where
  write : T → Json
  read : Json → Option T

def TomlFormat.codec {T : Type} (fmt : TomlFormat T) : Codec T where
  write v := some (fmt.write v)
  read := fmt.read

end Leaves

section Sections

variable {T : Type}

def defaultTrue : Bool := true

def defaultEmbeddingsProvider : String := "openai"

def defaultEmbeddingsModel : String := "text-embedding-3-small"

structure EmbeddingsSettings where
  enabled : Bool
  provider : String
  model : String

def EmbeddingsSettings.default : EmbeddingsSettings where
  enabled := false
  provider := defaultEmbeddingsProvider
  model := defaultEmbeddingsModel

def EmbeddingsSettings.fields : Fields EmbeddingsSettings :=
  .transport ⟨fun (enabled, provider, model, ()) =>
    ⟨enabled, provider, model⟩,
    fun s => (s.enabled, s.provider, s.model, ()),
    fun _ => rfl, fun _ => rfl⟩ <|
  .leaf "enabled" [] (some false) .bool <|
  .leaf "provider" [] (some defaultEmbeddingsProvider) .string <|
  .leaf "model" [] (some defaultEmbeddingsModel) .string .nil

structure TunnelSettings where
  publicUrl : Option String
  provider : Option String
  cfToken : Option String
  ngrokToken : Option String
  ngrokDomain : Option String
  tsFunnel : Bool
  tsHostname : Option String
  customCommand : Option String
  customHealthUrl : Option String
  customUrlPattern : Option String

def TunnelSettings.default : TunnelSettings where
  publicUrl := none
  provider := none
  cfToken := none
  ngrokToken := none
  ngrokDomain := none
  tsFunnel := false
  tsHostname := none
  customCommand := none
  customHealthUrl := none
  customUrlPattern := none

def TunnelSettings.fields : Fields TunnelSettings :=
  .transport ⟨fun (publicUrl, provider, cfToken, ngrokToken, ngrokDomain, tsFunnel, tsHostname,
    customCommand, customHealthUrl, customUrlPattern, ()) =>
    ⟨publicUrl, provider, cfToken, ngrokToken, ngrokDomain, tsFunnel, tsHostname, customCommand,
      customHealthUrl, customUrlPattern⟩,
    fun s => (s.publicUrl, s.provider, s.cfToken, s.ngrokToken, s.ngrokDomain, s.tsFunnel,
      s.tsHostname, s.customCommand, s.customHealthUrl, s.customUrlPattern, ()),
    fun _ => rfl, fun _ => rfl⟩ <|
  .leaf "public_url" [] (some none) Codec.string.option <|
  .leaf "provider" [] (some none) Codec.string.option <|
  .leaf "cf_token" [] (some none) Codec.string.option <|
  .leaf "ngrok_token" [] (some none) Codec.string.option <|
  .leaf "ngrok_domain" [] (some none) Codec.string.option <|
  .leaf "ts_funnel" [] (some false) .bool <|
  .leaf "ts_hostname" [] (some none) Codec.string.option <|
  .leaf "custom_command" [] (some none) Codec.string.option <|
  .leaf "custom_health_url" [] (some none) Codec.string.option <|
  .leaf "custom_url_pattern" [] (some none) Codec.string.option .nil

structure ChannelSettings where
  httpEnabled : Bool
  httpPort : Option UInt16
  httpHost : Option String
  telegramOwnerId : Option Int64
  wasmChannels : List String
  wasmChannelsEnabled : Bool
  wasmChannelsDir : Option PathBuf

/-- The default is derived: `wasm_channels_enabled` is false in it, and true where it is not given. -/
def ChannelSettings.default : ChannelSettings where
  httpEnabled := false
  httpPort := none
  httpHost := none
  telegramOwnerId := none
  wasmChannels := []
  wasmChannelsEnabled := false
  wasmChannelsDir := none

def ChannelSettings.fields : Fields ChannelSettings :=
  .transport ⟨fun (httpEnabled, httpPort, httpHost, telegramOwnerId, wasmChannels, wasmChannelsEnabled,
    wasmChannelsDir, ()) =>
    ⟨httpEnabled, httpPort, httpHost, telegramOwnerId, wasmChannels, wasmChannelsEnabled,
      wasmChannelsDir⟩,
    fun s => (s.httpEnabled, s.httpPort, s.httpHost, s.telegramOwnerId, s.wasmChannels,
      s.wasmChannelsEnabled, s.wasmChannelsDir, ()),
    fun _ => rfl, fun _ => rfl⟩ <|
  .leaf "http_enabled" [] (some false) .bool <|
  .leaf "http_port" [] (some none) Codec.u16.option <|
  .leaf "http_host" [] (some none) Codec.string.option <|
  .leaf "telegram_owner_id" [] (some none) Codec.i64.option <|
  .leaf "wasm_channels" [] (some []) Codec.string.vec <|
  .leaf "wasm_channels_enabled" [] (some defaultTrue) .bool <|
  .leaf "wasm_channels_dir" [] (some none) PathBuf.codec.option .nil

def defaultHeartbeatInterval : UInt64 := 1800

structure HeartbeatSettings where
  enabled : Bool
  intervalSecs : UInt64
  notifyChannel : Option String
  notifyUser : Option String

def HeartbeatSettings.default : HeartbeatSettings where
  enabled := false
  intervalSecs := defaultHeartbeatInterval
  notifyChannel := none
  notifyUser := none

def HeartbeatSettings.fields : Fields HeartbeatSettings :=
  .transport ⟨fun (enabled, intervalSecs, notifyChannel, notifyUser, ()) =>
    ⟨enabled, intervalSecs, notifyChannel, notifyUser⟩,
    fun s => (s.enabled, s.intervalSecs, s.notifyChannel, s.notifyUser, ()),
    fun _ => rfl, fun _ => rfl⟩ <|
  .leaf "enabled" [] (some false) .bool <|
  .leaf "interval_secs" [] (some defaultHeartbeatInterval) .u64 <|
  .leaf "notify_channel" [] (some none) Codec.string.option <|
  .leaf "notify_user" [] (some none) Codec.string.option .nil

def defaultAgentName : String := "gyre"

def defaultMaxParallelJobs : UInt32 := 5

def defaultJobTimeout : UInt64 := 3600

def defaultStuckThreshold : UInt64 := 300

def defaultRepairInterval : UInt64 := 60

def defaultSessionIdleTimeout : UInt64 := 7 * 24 * 3600

def defaultMaxRepairAttempts : UInt32 := 3

structure AgentSettings where
  name : String
  maxParallelJobs : UInt32
  jobTimeoutSecs : UInt64
  stuckThresholdSecs : UInt64
  usePlanning : Bool
  repairCheckIntervalSecs : UInt64
  maxRepairAttempts : UInt32
  sessionIdleTimeoutSecs : UInt64

def AgentSettings.default : AgentSettings where
  name := defaultAgentName
  maxParallelJobs := defaultMaxParallelJobs
  jobTimeoutSecs := defaultJobTimeout
  stuckThresholdSecs := defaultStuckThreshold
  usePlanning := true
  repairCheckIntervalSecs := defaultRepairInterval
  maxRepairAttempts := defaultMaxRepairAttempts
  sessionIdleTimeoutSecs := defaultSessionIdleTimeout

def AgentSettings.fields : Fields AgentSettings :=
  .transport ⟨fun (name, maxParallelJobs, jobTimeoutSecs, stuckThresholdSecs, usePlanning,
    repairCheckIntervalSecs, maxRepairAttempts, sessionIdleTimeoutSecs, ()) =>
    ⟨name, maxParallelJobs, jobTimeoutSecs, stuckThresholdSecs, usePlanning, repairCheckIntervalSecs,
      maxRepairAttempts, sessionIdleTimeoutSecs⟩,
    fun s => (s.name, s.maxParallelJobs, s.jobTimeoutSecs, s.stuckThresholdSecs, s.usePlanning,
      s.repairCheckIntervalSecs, s.maxRepairAttempts, s.sessionIdleTimeoutSecs, ()),
    fun _ => rfl, fun _ => rfl⟩ <|
  .leaf "name" [] (some defaultAgentName) .string <|
  .leaf "max_parallel_jobs" [] (some defaultMaxParallelJobs) .u32 <|
  .leaf "job_timeout_secs" [] (some defaultJobTimeout) .u64 <|
  .leaf "stuck_threshold_secs" [] (some defaultStuckThreshold) .u64 <|
  .leaf "use_planning" [] (some defaultTrue) .bool <|
  .leaf "repair_check_interval_secs" [] (some defaultRepairInterval) .u64 <|
  .leaf "max_repair_attempts" [] (some defaultMaxRepairAttempts) .u32 <|
  .leaf "session_idle_timeout_secs" [] (some defaultSessionIdleTimeout) .u64 .nil

def defaultWasmMemoryLimit : UInt64 := 10 * 1024 * 1024

def defaultWasmTimeout : UInt64 := 60

def defaultWasmFuelLimit : UInt64 := 10000000

structure WasmSettings where
  enabled : Bool
  toolsDir : Option PathBuf
  defaultMemoryLimit : UInt64
  defaultTimeoutSecs : UInt64
  defaultFuelLimit : UInt64
  cacheCompiled : Bool
  cacheDir : Option PathBuf

def WasmSettings.default : WasmSettings where
  enabled := true
  toolsDir := none
  defaultMemoryLimit := defaultWasmMemoryLimit
  defaultTimeoutSecs := defaultWasmTimeout
  defaultFuelLimit := defaultWasmFuelLimit
  cacheCompiled := true
  cacheDir := none

def WasmSettings.fields : Fields WasmSettings :=
  .transport ⟨fun (enabled, toolsDir, defaultMemoryLimit, defaultTimeoutSecs, defaultFuelLimit,
    cacheCompiled, cacheDir, ()) =>
    ⟨enabled, toolsDir, defaultMemoryLimit, defaultTimeoutSecs, defaultFuelLimit, cacheCompiled,
      cacheDir⟩,
    fun s => (s.enabled, s.toolsDir, s.defaultMemoryLimit, s.defaultTimeoutSecs, s.defaultFuelLimit,
      s.cacheCompiled, s.cacheDir, ()),
    fun _ => rfl, fun _ => rfl⟩ <|
  .leaf "enabled" [] (some defaultTrue) .bool <|
  .leaf "tools_dir" [] (some none) PathBuf.codec.option <|
  .leaf "default_memory_limit" [] (some defaultWasmMemoryLimit) .u64 <|
  .leaf "default_timeout_secs" [] (some defaultWasmTimeout) .u64 <|
  .leaf "default_fuel_limit" [] (some defaultWasmFuelLimit) .u64 <|
  .leaf "cache_compiled" [] (some defaultTrue) .bool <|
  .leaf "cache_dir" [] (some none) PathBuf.codec.option .nil

def defaultSandboxPolicy : String := "readonly"

def defaultSandboxTimeout : UInt64 := 120

def defaultSandboxMemory : UInt64 := 2048

def defaultSandboxCpuShares : UInt32 := 1024

def defaultSandboxImage : String := "ghcr.io/sargassollc/gyre-sandbox:latest"

structure SandboxSettings where
  enabled : Bool
  policy : String
  timeoutSecs : UInt64
  memoryLimitMb : UInt64
  cpuShares : UInt32
  image : String
  autoPullImage : Bool
  extraAllowedDomains : List String

def SandboxSettings.default : SandboxSettings where
  enabled := true
  policy := defaultSandboxPolicy
  timeoutSecs := defaultSandboxTimeout
  memoryLimitMb := defaultSandboxMemory
  cpuShares := defaultSandboxCpuShares
  image := defaultSandboxImage
  autoPullImage := true
  extraAllowedDomains := []

def SandboxSettings.fields : Fields SandboxSettings :=
  .transport ⟨fun (enabled, policy, timeoutSecs, memoryLimitMb, cpuShares, image, autoPullImage,
    extraAllowedDomains, ()) =>
    ⟨enabled, policy, timeoutSecs, memoryLimitMb, cpuShares, image, autoPullImage, extraAllowedDomains⟩,
    fun s => (s.enabled, s.policy, s.timeoutSecs, s.memoryLimitMb, s.cpuShares, s.image,
      s.autoPullImage, s.extraAllowedDomains, ()),
    fun _ => rfl, fun _ => rfl⟩ <|
  .leaf "enabled" [] (some defaultTrue) .bool <|
  .leaf "policy" [] (some defaultSandboxPolicy) .string <|
  .leaf "timeout_secs" [] (some defaultSandboxTimeout) .u64 <|
  .leaf "memory_limit_mb" [] (some defaultSandboxMemory) .u64 <|
  .leaf "cpu_shares" [] (some defaultSandboxCpuShares) .u32 <|
  .leaf "image" [] (some defaultSandboxImage) .string <|
  .leaf "auto_pull_image" [] (some defaultTrue) .bool <|
  .leaf "extra_allowed_domains" [] (some []) Codec.string.vec .nil

def defaultMaxOutputLength : UInt64 := 100000

structure SafetySettings where
  maxOutputLength : UInt64
  injectionCheckEnabled : Bool

def SafetySettings.default : SafetySettings where
  maxOutputLength := defaultMaxOutputLength
  injectionCheckEnabled := true

def SafetySettings.fields : Fields SafetySettings :=
  .transport ⟨fun (maxOutputLength, injectionCheckEnabled, ()) =>
    ⟨maxOutputLength, injectionCheckEnabled⟩,
    fun s => (s.maxOutputLength, s.injectionCheckEnabled, ()),
    fun _ => rfl, fun _ => rfl⟩ <|
  .leaf "max_output_length" [] (some defaultMaxOutputLength) .u64 <|
  .leaf "injection_check_enabled" [] (some defaultTrue) .bool .nil

def defaultEgressMode : String := "observe"

def defaultEgressJudgeMaxLatencyMs : UInt64 := 3000

structure EgressSettings where
  mode : String
  allow : List String
  deny : List String
  judgeMaxLatencyMs : UInt64

def EgressSettings.default : EgressSettings where
  mode := defaultEgressMode
  allow := []
  deny := []
  judgeMaxLatencyMs := defaultEgressJudgeMaxLatencyMs

def EgressSettings.fields : Fields EgressSettings :=
  .transport ⟨fun (mode, allow, deny, judgeMaxLatencyMs, ()) =>
    ⟨mode, allow, deny, judgeMaxLatencyMs⟩,
    fun s => (s.mode, s.allow, s.deny, s.judgeMaxLatencyMs, ()),
    fun _ => rfl, fun _ => rfl⟩ <|
  .leaf "mode" [] (some defaultEgressMode) .string <|
  .leaf "allow" [] (some []) Codec.string.vec <|
  .leaf "deny" [] (some []) Codec.string.vec <|
  .leaf "judge_max_latency_ms" [] (some defaultEgressJudgeMaxLatencyMs) .u64 .nil

def defaultBuilderMaxIterations : UInt32 := 20

def defaultBuilderTimeout : UInt64 := 600

structure BuilderSettings where
  enabled : Bool
  buildDir : Option PathBuf
  maxIterations : UInt32
  timeoutSecs : UInt64
  autoRegister : Bool

def BuilderSettings.default : BuilderSettings where
  enabled := true
  buildDir := none
  maxIterations := defaultBuilderMaxIterations
  timeoutSecs := defaultBuilderTimeout
  autoRegister := true

def BuilderSettings.fields : Fields BuilderSettings :=
  .transport ⟨fun (enabled, buildDir, maxIterations, timeoutSecs, autoRegister, ()) =>
    ⟨enabled, buildDir, maxIterations, timeoutSecs, autoRegister⟩,
    fun s => (s.enabled, s.buildDir, s.maxIterations, s.timeoutSecs, s.autoRegister, ()),
    fun _ => rfl, fun _ => rfl⟩ <|
  .leaf "enabled" [] (some defaultTrue) .bool <|
  .leaf "build_dir" [] (some none) PathBuf.codec.option <|
  .leaf "max_iterations" [] (some defaultBuilderMaxIterations) .u32 <|
  .leaf "timeout_secs" [] (some defaultBuilderTimeout) .u64 <|
  .leaf "auto_register" [] (some defaultTrue) .bool .nil

def defaultCbFailureThreshold : UInt32 := 5

def defaultCbResetTimeout : UInt64 := 30

structure CircuitBreakerSettings where
  enabled : Bool
  failureThreshold : UInt32
  resetTimeoutSecs : UInt64

def CircuitBreakerSettings.default : CircuitBreakerSettings where
  enabled := true
  failureThreshold := defaultCbFailureThreshold
  resetTimeoutSecs := defaultCbResetTimeout

def CircuitBreakerSettings.fields : Fields CircuitBreakerSettings :=
  .transport ⟨fun (enabled, failureThreshold, resetTimeoutSecs, ()) =>
    ⟨enabled, failureThreshold, resetTimeoutSecs⟩,
    fun s => (s.enabled, s.failureThreshold, s.resetTimeoutSecs, ()),
    fun _ => rfl, fun _ => rfl⟩ <|
  .leaf "enabled" [] (some defaultTrue) .bool <|
  .leaf "failure_threshold" [] (some defaultCbFailureThreshold) .u32 <|
  .leaf "reset_timeout_secs" [] (some defaultCbResetTimeout) .u64 .nil

def defaultCacheTtl : UInt64 := 3600

def defaultCacheMaxEntries : UInt64 := 1000

structure ResponseCacheSettings where
  enabled : Bool
  ttlSecs : UInt64
  maxEntries : UInt64

def ResponseCacheSettings.default : ResponseCacheSettings where
  enabled := false
  ttlSecs := defaultCacheTtl
  maxEntries := defaultCacheMaxEntries

def ResponseCacheSettings.fields : Fields ResponseCacheSettings :=
  .transport ⟨fun (enabled, ttlSecs, maxEntries, ()) =>
    ⟨enabled, ttlSecs, maxEntries⟩,
    fun s => (s.enabled, s.ttlSecs, s.maxEntries, ()),
    fun _ => rfl, fun _ => rfl⟩ <|
  .leaf "enabled" [] (some false) .bool <|
  .leaf "ttl_secs" [] (some defaultCacheTtl) .u64 <|
  .leaf "max_entries" [] (some defaultCacheMaxEntries) .u64 .nil

def defaultFailoverCooldown : UInt64 := 60

structure FailoverSettings where
  enabled : Bool
  fallbackBackend : Option String
  fallbackModel : Option String
  fallbackBaseUrl : Option String
  fallbackApiKey : Option String
  cooldownSecs : UInt64

def FailoverSettings.default : FailoverSettings where
  enabled := false
  fallbackBackend := none
  fallbackModel := none
  fallbackBaseUrl := none
  fallbackApiKey := none
  cooldownSecs := defaultFailoverCooldown

def FailoverSettings.fields : Fields FailoverSettings :=
  .transport ⟨fun (enabled, fallbackBackend, fallbackModel, fallbackBaseUrl, fallbackApiKey,
    cooldownSecs, ()) =>
    ⟨enabled, fallbackBackend, fallbackModel, fallbackBaseUrl, fallbackApiKey, cooldownSecs⟩,
    fun s => (s.enabled, s.fallbackBackend, s.fallbackModel, s.fallbackBaseUrl, s.fallbackApiKey,
      s.cooldownSecs, ()),
    fun _ => rfl, fun _ => rfl⟩ <|
  .leaf "enabled" [] (some false) .bool <|
  .leaf "fallback_backend" [] (some none) Codec.string.option <|
  .leaf "fallback_model" [] (some none) Codec.string.option <|
  .leaf "fallback_base_url" [] (some none) Codec.string.option <|
  .leaf "fallback_api_key" [] (some none) Codec.string.option <|
  .leaf "cooldown_secs" [] (some defaultFailoverCooldown) .u64 .nil

structure ResilienceSettings where
  circuitBreaker : CircuitBreakerSettings
  responseCache : ResponseCacheSettings
  failover : FailoverSettings

def ResilienceSettings.default : ResilienceSettings where
  circuitBreaker := .default
  responseCache := .default
  failover := .default

def ResilienceSettings.fields : Fields ResilienceSettings :=
  .transport ⟨fun (circuitBreaker, responseCache, failover, ()) =>
    ⟨circuitBreaker, responseCache, failover⟩,
    fun s => (s.circuitBreaker, s.responseCache, s.failover, ()),
    fun _ => rfl, fun _ => rfl⟩ <|
  .nested "circuit_breaker" (some .default) CircuitBreakerSettings.fields <|
  .nested "response_cache" (some .default) ResponseCacheSettings.fields <|
  .nested "failover" (some .default) FailoverSettings.fields .nil

def defaultGatewayPort : UInt16 := 3000

def defaultGatewayHost : String := "127.0.0.1"

structure GatewaySettings where
  daemonEnabled : Bool
  webEnabled : Bool
  webPort : UInt16
  webHost : String
  webAuthToken : Option String

def GatewaySettings.default : GatewaySettings where
  daemonEnabled := false
  webEnabled := false
  webPort := defaultGatewayPort
  webHost := defaultGatewayHost
  webAuthToken := none

def GatewaySettings.fields : Fields GatewaySettings :=
  .transport ⟨fun (daemonEnabled, webEnabled, webPort, webHost, webAuthToken, ()) =>
    ⟨daemonEnabled, webEnabled, webPort, webHost, webAuthToken⟩,
    fun s => (s.daemonEnabled, s.webEnabled, s.webPort, s.webHost, s.webAuthToken, ()),
    fun _ => rfl, fun _ => rfl⟩ <|
  .leaf "daemon_enabled" [] (some false) .bool <|
  .leaf "web_enabled" [] (some false) .bool <|
  .leaf "web_port" [] (some defaultGatewayPort) .u16 <|
  .leaf "web_host" [] (some defaultGatewayHost) .string <|
  .leaf "web_auth_token" [] (some none) Codec.string.option .nil

structure ChannelBinding (T : Type) where
  channelType : String
  name : Option String
  config : List (String × T)

def ChannelBinding.fields (fmt : TomlFormat T) : Fields (ChannelBinding T) :=
  .transport ⟨fun (channelType, name, config, ()) =>
    ⟨channelType, name, config⟩,
    fun s => (s.channelType, s.name, s.config, ()),
    fun _ => rfl, fun _ => rfl⟩ <|
  .leaf "channel_type" [] none .string <|
  .leaf "name" [] (some none) Codec.string.option <|
  .leaf "config" [] (some []) fmt.codec.map .nil

structure AgentDefinition (T : Type) where
  id : String
  name : Option String
  llmBackend : Option String
  model : Option String
  channels : List (ChannelBinding T)
  primary : Bool

def AgentDefinition.fields (fmt : TomlFormat T) : Fields (AgentDefinition T) :=
  .transport ⟨fun (id, name, llmBackend, model, channels, primary, ()) =>
    ⟨id, name, llmBackend, model, channels, primary⟩,
    fun s => (s.id, s.name, s.llmBackend, s.model, s.channels, s.primary, ()),
    fun _ => rfl, fun _ => rfl⟩ <|
  .leaf "id" [] none .string <|
  .leaf "name" [] (some none) Codec.string.option <|
  .leaf "llm_backend" [] (some none) Codec.string.option <|
  .leaf "model" [] (some none) Codec.string.option <|
  .leaf "channels" [] (some []) (ChannelBinding.fields fmt).codec.vec <|
  .leaf "primary" [] (some false) .bool .nil

structure MultiAgentSettings (T : Type) where
  defaultAgent : Option String
  agentsDir : Option PathBuf
  agents : List (AgentDefinition T)

def MultiAgentSettings.default : MultiAgentSettings T where
  defaultAgent := none
  agentsDir := none
  agents := []

def MultiAgentSettings.fields (fmt : TomlFormat T) : Fields (MultiAgentSettings T) :=
  .transport ⟨fun (defaultAgent, agentsDir, agents, ()) =>
    ⟨defaultAgent, agentsDir, agents⟩,
    fun s => (s.defaultAgent, s.agentsDir, s.agents, ()),
    fun _ => rfl, fun _ => rfl⟩ <|
  .leaf "default_agent" [] (some none) Codec.string.option <|
  .leaf "agents_dir" [] (some none) PathBuf.codec.option <|
  .leaf "agents" [] (some []) (AgentDefinition.fields fmt).codec.vec .nil

structure Settings (T : Type) where
  onboardCompleted : Bool
  databaseBackend : Option String
  databaseUrl : Option String
  databasePoolSize : Option UInt64
  libsqlPath : Option String
  libsqlUrl : Option String
  secretsMasterKeySource : KeySource
  llmBackend : Option String
  ollamaBaseUrl : Option String
  openaiCompatibleBaseUrl : Option String
  selectedModel : Option String
  embeddings : EmbeddingsSettings
  tunnel : TunnelSettings
  channels : ChannelSettings
  heartbeat : HeartbeatSettings
  agent : AgentSettings
  wasm : WasmSettings
  sandbox : SandboxSettings
  safety : SafetySettings
  egress : EgressSettings
  builder : BuilderSettings
  resilience : ResilienceSettings
  multiAgent : MultiAgentSettings T
  gateway : GatewaySettings

def Settings.default : Settings T where
  onboardCompleted := false
  databaseBackend := none
  databaseUrl := none
  databasePoolSize := none
  libsqlPath := none
  libsqlUrl := none
  secretsMasterKeySource := .none
  llmBackend := none
  ollamaBaseUrl := none
  openaiCompatibleBaseUrl := none
  selectedModel := none
  embeddings := .default
  tunnel := .default
  channels := .default
  heartbeat := .default
  agent := .default
  wasm := .default
  sandbox := .default
  safety := .default
  egress := .default
  builder := .default
  resilience := .default
  multiAgent := .default
  gateway := .default

def Settings.fields (fmt : TomlFormat T) : Fields (Settings T) :=
  .transport ⟨fun (onboardCompleted, databaseBackend, databaseUrl, databasePoolSize, libsqlPath,
    libsqlUrl, secretsMasterKeySource, llmBackend, ollamaBaseUrl, openaiCompatibleBaseUrl,
    selectedModel, embeddings, tunnel, channels, heartbeat, agent, wasm, sandbox, safety, egress,
    builder, resilience, multiAgent, gateway, ()) =>
    ⟨onboardCompleted, databaseBackend, databaseUrl, databasePoolSize, libsqlPath, libsqlUrl,
      secretsMasterKeySource, llmBackend, ollamaBaseUrl, openaiCompatibleBaseUrl, selectedModel,
      embeddings, tunnel, channels, heartbeat, agent, wasm, sandbox, safety, egress, builder,
      resilience, multiAgent, gateway⟩,
    fun s => (s.onboardCompleted, s.databaseBackend, s.databaseUrl, s.databasePoolSize, s.libsqlPath,
      s.libsqlUrl, s.secretsMasterKeySource, s.llmBackend, s.ollamaBaseUrl, s.openaiCompatibleBaseUrl,
      s.selectedModel, s.embeddings, s.tunnel, s.channels, s.heartbeat, s.agent, s.wasm, s.sandbox,
      s.safety, s.egress, s.builder, s.resilience, s.multiAgent, s.gateway, ()),
    fun _ => rfl, fun _ => rfl⟩ <|
  .leaf "onboard_completed" ["setup_completed"] (some false) .bool <|
  .leaf "database_backend" [] (some none) Codec.string.option <|
  .leaf "database_url" [] (some none) Codec.string.option <|
  .leaf "database_pool_size" [] (some none) Codec.u64.option <|
  .leaf "libsql_path" [] (some none) Codec.string.option <|
  .leaf "libsql_url" [] (some none) Codec.string.option <|
  .leaf "secrets_master_key_source" [] (some .none) KeySource.codec <|
  .leaf "llm_backend" [] (some none) Codec.string.option <|
  .leaf "ollama_base_url" [] (some none) Codec.string.option <|
  .leaf "openai_compatible_base_url" [] (some none) Codec.string.option <|
  .leaf "selected_model" [] (some none) Codec.string.option <|
  .nested "embeddings" (some .default) EmbeddingsSettings.fields <|
  .nested "tunnel" (some .default) TunnelSettings.fields <|
  .nested "channels" (some .default) ChannelSettings.fields <|
  .nested "heartbeat" (some .default) HeartbeatSettings.fields <|
  .nested "agent" (some .default) AgentSettings.fields <|
  .nested "wasm" (some .default) WasmSettings.fields <|
  .nested "sandbox" (some .default) SandboxSettings.fields <|
  .nested "safety" (some .default) SafetySettings.fields <|
  .nested "egress" (some .default) EgressSettings.fields <|
  .nested "builder" (some .default) BuilderSettings.fields <|
  .nested "resilience" (some .default) ResilienceSettings.fields <|
  .nested "multi_agent" (some .default) (MultiAgentSettings.fields fmt) <|
  .nested "gateway" (some .default) GatewaySettings.fields .nil

/-- The leaves that may not be text. -/
def Settings.paths (s : Settings T) : List (Option PathBuf) :=
  [s.channels.wasmChannelsDir, s.wasm.toolsDir, s.wasm.cacheDir, s.builder.buildDir,
    s.multiAgent.agentsDir]

/-- Every path is text. -/
def Settings.TextPaths (s : Settings T) : Prop := ∀ p ∈ s.paths, ∀ q ∈ p, q.toStr ≠ none

/-- The values that the channels of the agents are configured with. -/
def configValues (agents : List (AgentDefinition T)) : List T :=
  agents.flatMap fun agent => agent.channels.flatMap fun channel => channel.config.map Prod.snd

end Sections

section Leaves

variable {T : Type} {fmt : TomlFormat T}

theorem fields_wellFormed : (Settings.fields fmt).wellFormed = true := by
  rfl

section Plain

open Codec in
/-- The codecs of the leaves that are always written and read back. -/
theorem plain_leaves :
    bool.Plain ∧ string.Plain ∧ string.vec.Plain ∧ u16.Plain ∧ u32.Plain ∧ u64.Plain ∧
      string.option.Plain ∧ u16.option.Plain ∧ u64.option.Plain ∧ i64.option.Plain ∧
      KeySource.codec.Plain := by
  refine ⟨⟨lawful_bool, total_bool⟩, ⟨lawful_string, total_string⟩, ⟨lawful_string.vec, total_string.vec⟩,
    ⟨lawful_u16, total_integer⟩, ⟨lawful_u32, total_integer⟩, ⟨lawful_u64, total_integer⟩,
    ⟨lawful_string.option nofun, total_string.option⟩, ⟨lawful_u16.option nofun, total_integer.option⟩,
    ⟨lawful_u64.option nofun, total_integer.option⟩, ⟨lawful_i64.option nofun, total_integer.option⟩,
    KeySource.lawful_codec, KeySource.total_codec⟩

theorem EmbeddingsSettings.plain : EmbeddingsSettings.fields.Plain := by
  simp only [EmbeddingsSettings.fields, Fields.Plain, plain_leaves, and_self]

theorem TunnelSettings.plain : TunnelSettings.fields.Plain := by
  simp only [TunnelSettings.fields, Fields.Plain, plain_leaves, and_self]

theorem HeartbeatSettings.plain : HeartbeatSettings.fields.Plain := by
  simp only [HeartbeatSettings.fields, Fields.Plain, plain_leaves, and_self]

theorem AgentSettings.plain : AgentSettings.fields.Plain := by
  simp only [AgentSettings.fields, Fields.Plain, plain_leaves, and_self]

theorem SandboxSettings.plain : SandboxSettings.fields.Plain := by
  simp only [SandboxSettings.fields, Fields.Plain, plain_leaves, and_self]

theorem SafetySettings.plain : SafetySettings.fields.Plain := by
  simp only [SafetySettings.fields, Fields.Plain, plain_leaves, and_self]

theorem EgressSettings.plain : EgressSettings.fields.Plain := by
  simp only [EgressSettings.fields, Fields.Plain, plain_leaves, and_self]

theorem GatewaySettings.plain : GatewaySettings.fields.Plain := by
  simp only [GatewaySettings.fields, Fields.Plain, plain_leaves, and_self]

theorem ResilienceSettings.plain : ResilienceSettings.fields.Plain := by
  simp only [ResilienceSettings.fields, CircuitBreakerSettings.fields, ResponseCacheSettings.fields,
    FailoverSettings.fields, Fields.Plain, plain_leaves, and_self]

end Plain

section Forall

variable {P : {α : Type} → Codec α → α → Prop}
  (hplain : ∀ {α : Type} {c : Codec α}, c.Plain → ∀ a, P c a)

include hplain

theorem ChannelSettings.forall_iff {s : ChannelSettings} :
    ChannelSettings.fields.Forall P s ↔ P PathBuf.codec.option s.wasmChannelsDir := by
  simp only [ChannelSettings.fields, Fields.Forall, Equiv.coe_fn_symm_mk, hplain, plain_leaves, true_and,
    and_true]

theorem WasmSettings.forall_iff {s : WasmSettings} : WasmSettings.fields.Forall P s ↔
    P PathBuf.codec.option s.toolsDir ∧ P PathBuf.codec.option s.cacheDir := by
  simp only [WasmSettings.fields, Fields.Forall, Equiv.coe_fn_symm_mk, hplain, plain_leaves, true_and,
    and_true]

theorem BuilderSettings.forall_iff {s : BuilderSettings} :
    BuilderSettings.fields.Forall P s ↔ P PathBuf.codec.option s.buildDir := by
  simp only [BuilderSettings.fields, Fields.Forall, Equiv.coe_fn_symm_mk, hplain, plain_leaves, true_and,
    and_true]

theorem MultiAgentSettings.forall_iff {s : MultiAgentSettings T} :
    (MultiAgentSettings.fields fmt).Forall P s ↔
      P PathBuf.codec.option s.agentsDir ∧ P (AgentDefinition.fields fmt).codec.vec s.agents := by
  simp only [MultiAgentSettings.fields, Fields.Forall, Equiv.coe_fn_symm_mk, hplain, plain_leaves,
    true_and, and_true]

/-- What holds of every plain leaf holds of all settings if it holds of the paths and of the agents. -/
theorem Settings.forall_iff {s : Settings T} : (Settings.fields fmt).Forall P s ↔
    (∀ p ∈ s.paths, P PathBuf.codec.option p) ∧
      P (AgentDefinition.fields fmt).codec.vec s.multiAgent.agents := by
  have hpaths : (∀ p ∈ s.paths, P PathBuf.codec.option p) ↔
      P PathBuf.codec.option s.channels.wasmChannelsDir ∧ P PathBuf.codec.option s.wasm.toolsDir ∧
        P PathBuf.codec.option s.wasm.cacheDir ∧ P PathBuf.codec.option s.builder.buildDir ∧
          P PathBuf.codec.option s.multiAgent.agentsDir := by
    simp [Settings.paths]
  rw [hpaths]
  simp only [Settings.fields, Fields.Forall, Equiv.coe_fn_symm_mk, hplain, plain_leaves,
    EmbeddingsSettings.plain.forall hplain, TunnelSettings.plain.forall hplain,
    HeartbeatSettings.plain.forall hplain, AgentSettings.plain.forall hplain,
    SandboxSettings.plain.forall hplain, SafetySettings.plain.forall hplain,
    EgressSettings.plain.forall hplain, ResilienceSettings.plain.forall hplain,
    GatewaySettings.plain.forall hplain, ChannelSettings.forall_iff hplain, WasmSettings.forall_iff hplain,
    BuilderSettings.forall_iff hplain, MultiAgentSettings.forall_iff hplain, true_and, and_true, and_assoc]

end Forall

section Agents

theorem total_channelBinding : (ChannelBinding.fields fmt).codec.Total := by
  intro channel hnone
  refine (ChannelBinding.fields fmt).write_ne_none.mpr ?_ (Option.map_eq_none_iff.mp hnone)
  have hconfig : fmt.codec.map.Total := Codec.Total.map fun _ => Option.some_ne_none _
  simp only [ChannelBinding.fields, Fields.Forall, Equiv.coe_fn_symm_mk]
  exact ⟨Codec.total_string _, Codec.total_string.option _, hconfig _, trivial⟩

theorem total_agentDefinition : (AgentDefinition.fields fmt).codec.Total := by
  intro agent hnone
  refine (AgentDefinition.fields fmt).write_ne_none.mpr ?_ (Option.map_eq_none_iff.mp hnone)
  simp only [AgentDefinition.fields, Fields.Forall, Equiv.coe_fn_symm_mk]
  exact ⟨Codec.total_string _, Codec.total_string.option _, Codec.total_string.option _,
    Codec.total_string.option _, total_channelBinding.vec _, Codec.total_bool _, trivial⟩

theorem channelBinding_iff {R : {α : Type} → Codec α → α → Prop} (hR : Reading R)
    {channel : ChannelBinding T} :
    R (ChannelBinding.fields fmt).codec channel ↔ ∀ e ∈ channel.config, R fmt.codec e.2 := by
  have htotal : fmt.codec.Total := fun _ => Option.some_ne_none _
  have hwrite : (ChannelBinding.fields fmt).write channel ≠ none := fun hnone =>
    total_channelBinding channel (Option.map_eq_none_iff.mpr hnone)
  rw [hR.record rfl hwrite]
  simp only [ChannelBinding.fields, Fields.Forall, Equiv.coe_fn_symm_mk, hR.plain, plain_leaves,
    hR.map htotal, true_and, and_true]

/-- Agents are read as the values are that their channels are configured with. -/
theorem agents_iff {R : {α : Type} → Codec α → α → Prop} (hR : Reading R)
    {agents : List (AgentDefinition T)} :
    R (AgentDefinition.fields fmt).codec.vec agents ↔ ∀ v ∈ configValues agents, R fmt.codec v := by
  have hagent : ∀ agent : AgentDefinition T, R (AgentDefinition.fields fmt).codec agent ↔
      ∀ channel ∈ agent.channels, ∀ e ∈ channel.config, R fmt.codec e.2 := by
    intro agent
    have hwrite : (AgentDefinition.fields fmt).write agent ≠ none := fun hnone =>
      total_agentDefinition agent (Option.map_eq_none_iff.mpr hnone)
    rw [hR.record rfl hwrite]
    simp only [AgentDefinition.fields, Fields.Forall, Equiv.coe_fn_symm_mk, hR.plain, plain_leaves,
      hR.vec total_channelBinding, channelBinding_iff hR, true_and, and_true]
  rw [hR.vec total_agentDefinition]
  unfold configValues
  simp only [hagent, List.mem_flatMap, List.mem_map]
  constructor
  · rintro h v ⟨agent, hagent, channel, hchannel, e, he, rfl⟩
    exact h agent hagent channel hchannel e he
  · intro h agent hagent channel hchannel e he
    exact h e.2 ⟨agent, hagent, channel, hchannel, e, he, rfl⟩

end Agents

section Writing

theorem write_path_ne_none {p : Option PathBuf} :
    PathBuf.codec.option.write p ≠ none ↔ ∀ q ∈ p, q.toStr ≠ none := by
  cases p with
  | none => exact ⟨fun _ => nofun, fun _ => Option.some_ne_none _⟩
  | some p =>
    unfold Codec.option PathBuf.codec
    dsimp only
    rw [ne_eq, Option.map_eq_none_iff]
    simp

theorem Settings.write_ne_none {s : Settings T} : (Settings.fields fmt).write s ≠ none ↔ s.TextPaths := by
  have hplain : ∀ {α : Type} {c : Codec α}, c.Plain → ∀ a, c.write a ≠ none := fun h a => h.total a
  rw [Fields.write_ne_none, Settings.forall_iff hplain]
  simp only [write_path_ne_none]
  exact and_iff_left (total_agentDefinition.vec _)

theorem PathBuf.lawful_option : PathBuf.codec.option.Lawful :=
  PathBuf.lawful_codec.option fun p h => by
    obtain ⟨s, -, hs⟩ := Option.map_eq_some_iff.mp h
    cases hs

/-- Settings whose paths are text are read as the values are that their agents are configured with. -/
theorem Settings.reading_iff {R : {α : Type} → Codec α → α → Prop} (hR : Reading R) {s : Settings T}
    (hpaths : ∀ p ∈ s.paths, R PathBuf.codec.option p) : (Settings.fields fmt).Forall R s ↔
      ∀ v ∈ configValues s.multiAgent.agents, R fmt.codec v := by
  rw [Settings.forall_iff hR.plain, agents_iff hR]
  exact and_iff_right hpaths

theorem Settings.again_eq_some {s : Settings T} (h : s.TextPaths) :
    (Settings.fields fmt).again s = some s ↔
      ∀ v ∈ configValues s.multiAgent.agents, fmt.read (fmt.write v) = some v := by
  rw [Fields.again_eq_some, Settings.reading_iff reading_same]
  · rfl
  · exact fun p hp => PathBuf.lawful_option.again_eq (write_path_ne_none.mpr (h p hp))

theorem Settings.again_ne_none {s : Settings T} (h : s.TextPaths) :
    (Settings.fields fmt).again s ≠ none ↔
      ∀ v ∈ configValues s.multiAgent.agents, fmt.read (fmt.write v) ≠ none := by
  rw [Fields.again_ne_none, Settings.reading_iff reading_accepted]
  · rfl
  · intro p hp
    rw [PathBuf.lawful_option.again_eq (write_path_ne_none.mpr (h p hp))]
    exact Option.some_ne_none p

end Writing

end Leaves

end Gyre.Config
