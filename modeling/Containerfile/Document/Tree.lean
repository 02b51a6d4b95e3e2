import Containerfile.Document.Basic
import Containerfile.Json.Basic

/-! # The tree of a document as JSON

The JSON form of everything that a document is made of.  Fields come in a fixed order; what
is missing is `null`. -/
namespace Containerfile

/-- Texts as an array. -/
def Json.texts (ts : List Text) : Json := .list .text ts

/-- A text that may be missing. -/
def Json.optText (t : Option Text) : Json := .opt .text t

/-- The JSON form of an image name. -/
def ImageName.toJson (n : ImageName) : Json :=
  .obj [("registry", .optText n.registry), ("repository", .text n.repository),
    ("tag", .optText n.tag), ("digest", .optText n.digest)]

/-- The JSON form of a heredoc. -/
def Heredoc.toJson (h : Heredoc) : Json :=
  .obj [("delimiter", .text h.delimiter), ("quoted", .bool h.quoted),
    ("strip_tabs", .bool h.stripTabs), ("body", .text h.body), ("lines", h.lines.toJson)]

/-- The JSON form of directives. -/
def Directives.toJson (d : Directives) : Json :=
  .obj [("escape", .opt (fun c => .text [c]) d.escape), ("syntax", .optText d.frontend),
    ("check", .optText d.check)]

/-! ## Bindings -/

/-- The JSON form of an extent. -/
def Extent.toJson : Extent → Json
  | .global => .string "global"
  | .stage index => .obj [("stage", .nat index)]

/-- The name of an origin. -/
def Origin.name : Origin → String
  | .arg => "arg"
  | .env => "env"

/-- The JSON form of a binding. -/
def Binding.toJson (b : Binding) : Json :=
  .obj [("name", .text b.name), ("value", .optText b.value), ("origin", .string b.origin.name),
    ("declared_at", .nat b.declaredAt), ("scope", b.extent.toJson)]

/-! ## Instructions -/

/-- The JSON form of a command. -/
def Command.toJson : Command → Json
  | .shell t => .obj [("shell", .text t)]
  | .exec items => .obj [("exec", .texts items)]

/-- The JSON form of a mount. -/
def Mount.toJson (m : Mount) : Json :=
  .obj [("mount_type", .text m.type), ("target", .optText m.target),
    ("options", .list (fun o => .arr [.text o.1, .optText o.2]) m.options), ("raw", .text m.raw)]

/-- The JSON form of a way of quoting. -/
def Quoting.toJson (q : Quoting) : Json := .string q.name

/-- The JSON form of a pair. -/
def KeyValue.toJson (p : KeyValue) : Json :=
  .obj [("key", .text p.key), ("value", .text p.value), ("quoting", p.quoting.toJson),
    ("has_equals", .bool p.hasEquals)]

/-- The JSON form of a declaration. -/
def ArgDecl.toJson (d : ArgDecl) : Json :=
  .obj [("name", .text d.name), ("default", .optText d.default), ("quoting", d.quoting.toJson)]

/-- The JSON form of a port. -/
def Port.toJson (p : Port) : Json :=
  .obj [("port", .text p.port), ("protocol", .opt (fun q => .string q.name) p.protocol)]

/-- The JSON form of a source of files. -/
def StageRef.toJson : StageRef → Json
  | .stage index name => .obj [("stage", .obj [("index", .nat index), ("name", .text name)])]
  | .image name => .obj [("image", name.toJson)]
  | .deferred name => .obj [("deferred", .text name)]

/-- The JSON form of a duration. -/
def Duration.toJson (d : Duration) : Json :=
  .obj [("secs", .nat d.seconds), ("nanos", .nat d.nanos)]

/-- The JSON form of a health check. -/
def HealthCheck.toJson (h : HealthCheck) : Json :=
  .obj [("command", h.command.toJson), ("interval", .opt Duration.toJson h.interval),
    ("timeout", .opt Duration.toJson h.timeout),
    ("start_period", .opt Duration.toJson h.startPeriod),
    ("start_interval", .opt Duration.toJson h.startInterval), ("retries", .opt .nat h.retries)]

/-- What an instruction says, without its keyword. -/
def Step.argsJson : Step → Json
  | .run r =>
    .obj [("command", r.command.toJson), ("mounts", .list Mount.toJson r.mounts),
      ("network", .opt (fun m => .string m.name) r.network),
      ("security", .opt (fun m => .string m.name) r.security),
      ("heredocs", .list Heredoc.toJson r.heredocs)]
  | .cmd c | .entrypoint c => .obj [("command", c.toJson)]
  | .copy files source parents =>
    .obj [("sources", .texts files.sources), ("destination", .text files.destination),
      ("from", .opt StageRef.toJson source), ("chown", .optText files.chown),
      ("chmod", .optText files.chmod), ("link", .bool files.link), ("parents", .bool parents),
      ("exclude", .texts files.exclude), ("heredocs", .list Heredoc.toJson files.heredocs),
      ("exec_form", .bool files.execForm)]
  | .add files checksum keepGitDir =>
    .obj [("sources", .texts files.sources), ("destination", .text files.destination),
      ("chown", .optText files.chown), ("chmod", .optText files.chmod),
      ("checksum", .optText checksum), ("keep_git_dir", .bool keepGitDir),
      ("link", .bool files.link), ("exclude", .texts files.exclude),
      ("heredocs", .list Heredoc.toJson files.heredocs), ("exec_form", .bool files.execForm)]
  | .env vars => .obj [("vars", .list KeyValue.toJson vars)]
  | .label labels => .obj [("labels", .list KeyValue.toJson labels)]
  | .arg args => .obj [("args", .list ArgDecl.toJson args)]
  | .expose ports => .obj [("ports", .list Port.toJson ports)]
  | .volume paths execForm => .obj [("paths", .texts paths), ("exec_form", .bool execForm)]
  | .workdir path => .obj [("path", .text path)]
  | .user name group => .obj [("user", .text name), ("group", .optText group)]
  | .shell argv => .obj [("shell", .texts argv)]
  | .stopsignal signal => .obj [("signal", .text signal)]
  | .healthcheck none => .string "none"
  | .healthcheck (some h) => .obj [("check", h.toJson)]

/-- An instruction under its keyword. -/
def Keyword.tagged (k : Keyword) (args : Json) : Json :=
  .obj [("instruction", .string k.name), ("args", args)]

/-- The JSON form of a step. -/
def Step.toJson (s : Step) : Json := s.keyword.tagged s.argsJson

/-- The JSON form of an instruction. -/
def Instruction.toJson : Instruction → Json
  | .fromImage b =>
    Keyword.fromImage.tagged (.obj [("image", b.image.toJson), ("platform", .optText b.platform),
      ("alias", .optText b.stageName)])
  | .step s => s.toJson
  | .onbuild trigger => Keyword.onbuild.tagged (.obj [("trigger", trigger.toJson)])
  | .maintainer name => Keyword.maintainer.tagged (.obj [("name", .text name)])

/-- The JSON form of an entry. -/
def Entry.toJson (e : Entry) : Json :=
  .obj [("kind", e.instruction.toJson), ("lines", e.lines.toJson)]

/-! ## Stages and documents -/

/-- The JSON form of a base. -/
def Base.toJson : Base → Json
  | .external image => .obj [("external", image.toJson)]
  | .stage index => .obj [("stage", .nat index)]
  | .scratch => .string "scratch"

/-- The JSON form of a stage. -/
def Stage.toJson (s : Stage) : Json :=
  .obj [("index", .nat s.index), ("alias", .optText s.givenName), ("base", s.base.toJson),
    ("instructions", .list Entry.toJson s.entries),
    ("variables", .list Binding.toJson s.bindings)]

/-- The JSON form of a document. -/
def Document.toJson (d : Document) : Json :=
  .obj [("directives", d.directives.toJson), ("global_args", .list Binding.toJson d.globalArgs),
    ("global_instructions", .list Entry.toJson d.globals), ("stages", .list Stage.toJson d.stages),
    ("diagnostics", .list Diagnostic.toJson d.diagnostics)]

/-- The tree of a document as pretty JSON. -/
def Document.tree (d : Document) : Text := d.toJson.pretty

end Containerfile
