import Kip.GoMap
import Kip.Strings
import Kip.Filepath
import Kip.Filepath.Meaning
import Kip.Server.Package
import Kip.Server.Extract
import Kip.Server.Files
import Kip.Server.Deploy
import Kip.Server.Rootfs
import Kip.Server.CellFiles
import Kip.Server.Cell
import Kip.CloudInit.File
import Kip.Cloud.BootImageTags
import Kip.Cloud.Strconv
import Kip.Cloud.Time
import Kip.Cloud.Timestamp
import Kip.Cloud.Image
