import ArkiveSync.Library.FsPath
import ArkiveSync.Model.FileManifest

/-!
# Naming a file

`describeFileMime`: the name, the extension and the type of a file are read off
its path.  A program's extension has no type of its own.
-/

namespace ArkiveSync

open Library

namespace Mime

/-- `kMimeMappings`. -/
def kMimeMappings : List (String × String) :=
  [(".jpg", "image/jpeg"), (".jpeg", "image/jpeg"), (".png", "image/png"),
    (".gif", "image/gif"), (".webp", "image/webp"), (".svg", "image/svg+xml"),
    (".bmp", "image/bmp"), (".txt", "text/plain"), (".md", "text/markdown"),
    (".csv", "text/csv"), (".json", "application/json"),
    (".pdf", "application/pdf"), (".mp4", "video/mp4"), (".m4v", "video/mp4"),
    (".mov", "video/quicktime"), (".webm", "video/webm"),
    (".mkv", "video/x-matroska"), (".mp3", "audio/mpeg"),
    (".m4a", "audio/mp4"), (".wav", "audio/wav"), (".ogg", "audio/ogg"),
    (".flac", "audio/flac"), (".zip", "application/zip"),
    (".tar", "application/x-tar"), (".gz", "application/gzip"),
    (".7z", "application/x-7z-compressed"), (".rar", "application/vnd.rar"),
    (".epub", "application/epub+zip"), (".heic", "image/heic")]

/-- `kDangerousExtensions`. -/
def kDangerousExtensions : List String :=
  [".exe", ".msi", ".bat", ".cmd", ".com", ".scr", ".ps1", ".vbs", ".js",
    ".jse", ".jar", ".app", ".apk", ".dmg", ".pkg", ".deb", ".rpm", ".sh",
    ".csh", ".ksh", ".so", ".dll"]

/-- `normalizedExtension`. -/
def normalizedExtension (path : FsPath) : String :=
  path.extension.map Char.toLower

/-- `isDangerousExtension`. -/
def isDangerousExtension (extension : String) : Bool :=
  kDangerousExtensions.contains extension

/-- `inferSafeMimeType`. -/
def inferSafeMimeType (path : FsPath) : String :=
  let extension := normalizedExtension path
  if extension.isEmpty || isDangerousExtension extension then
    "application/octet-stream"
  else
    match kMimeMappings.find? (fun mapping => mapping.1 == extension) with
    | none => "application/octet-stream"
    | some mapping => mapping.2

/-- `describeFileMime`. -/
def describeFileMime (path : FsPath) : FileMimeDetails :=
  { name := path.filename
    extension := path.extension
    mime := inferSafeMimeType path }

end Mime

end ArkiveSync
